import Mathlib.Tactic.Common
import ScriptedNotes.Proofs.Run.Closures

/-!
Disciplines of runs. A discipline says what holds of every state of a run, what a computation may
have done to the state when it ends, which closures may stand in values, which frames a computation
may look into and in which it may declare names. It is lawful when the single steps of a run observe
it; then so does everything that the evaluator puts together from them (`Safe` and the rules that
follow it), up to whole runs (`evaluatorSafe`).

What is visible and allowed depends on the frames, which grow while a run goes on. A computation is
therefore looked at from the state in which it begins, and a rule for two computations in a row
looks at the second from every state that the first can lead to. A procedure of the host may be
asked to go on, or be invoked as a task, long after it got hold of a closure; so what is asked of it
is asked for all sets of closures that may be allowed by then (`Permits`).
-/

namespace ScriptedNotes.Run

open Script (Function Stmt Expr Branch)

/-- What a discipline is about. -/
structure Discipline (σ : Type) where
  /-- Holds of every state. -/
  Inv : Machine σ → Prop
  /-- Holds between the states in which a computation begins and ends. -/
  Step : Machine σ → Machine σ → Prop
  refl : ∀ m, Step m m
  trans : ∀ m₁ m₂ m₃, Step m₁ m₂ → Step m₂ m₃ → Step m₁ m₃
  /-- The closures that may stand in values. -/
  allowed : Heap → Function → FrameId → Prop
  /-- The sets of closures that may stand in values now or later. -/
  later : Heap → (Function → FrameId → Prop) → Prop
  /-- What may be registered as a task under a name. -/
  admits : Heap → String → Handler → Prop
  /-- The frames that a computation may look into. -/
  sees : Heap → FrameId → Prop
  /-- The frames in which a computation may declare names. -/
  owns : Heap → FrameId → Prop
  /-- Whether computations have to end within their fuel. -/
  ending : Prop

namespace Machine

variable {σ : Type}

/-- The state in which the body of a call begins. -/
def deeper (m : Machine σ) : Machine σ :=
  { m with depth := m.depth + 1, deepest := max m.deepest (m.depth + 1) }

/-- The state behind a call whose body ended in this one. -/
def shallower (m : Machine σ) : Machine σ :=
  { m with depth := m.depth - 1 }

end Machine

namespace Exec

variable {σ α : Type} {m : Machine σ}

/-- At the limit nothing is done. -/
lemma nested_of_le (hfull : maxDepth ≤ m.depth) (x : Exec σ α) :
    nested x m = (.error (.thrown "Maximum call stack size exceeded"), m) :=
  if_pos hfull

/-- Below it the body runs one level deeper. -/
lemma nested_of_lt (hroom : m.depth < maxDepth) (x : Exec σ α) :
    nested x m = Prod.map id Machine.shallower (x m.deeper) :=
  if_neg (Nat.not_le.2 hroom)

end Exec

namespace Discipline

variable {σ : Type} (D : Discipline σ)

/-- A state is lawfully followed by another. -/
structure Leads (m m' : Machine σ) : Prop where
  before : D.Inv m
  step : D.Step m m'
  after : D.Inv m'

/-- The value holds closures only that may stand in values. -/
def Fair (h : Heap) (v : Value) : Prop :=
  v.AllClosures (D.allowed h)

/-- A list of such values. -/
def FairAll (h : Heap) (vs : List Value) : Prop :=
  ∀ v ∈ vs, D.Fair h v

/-- The procedure of the host brings in such closures only, now and later. -/
def Permits (h : Heap) (a : Action) : Prop :=
  ∀ P, D.later h P → a.AllClosures P

/-- What is run when a task is brings in such closures only, now and later. -/
def PermitsHandler (h : Heap) (handler : Handler) : Prop :=
  ∀ P, D.later h P → handler.AllClosures P

/-- A statement ends with such a value if with any. -/
def FairFlow (h : Heap) : Flow → Prop
  | .return v => D.Fair h v
  | .normal | .break | .continue => True

/-- The end of a computation that began in `m`. -/
structure Ends {α : Type} (m : Machine σ) (Q : Heap → α → Prop) (p : Result α × Machine σ) :
    Prop where
  leads : D.Leads m p.2
  finished : D.ending → p.1 ≠ .unfinished
  value : ∀ a, p.1 = .value a → Q p.2.heap a

/-- The computation observes the discipline when it begins in `m`, and its value has the
property. -/
def Safe {α : Type} (m : Machine σ) (x : Exec σ α) (Q : Heap → α → Prop) : Prop :=
  D.Inv m → D.Ends m Q (x m)

/-- The single steps of a run observe the discipline. -/
structure Lawful : Prop where
  /-- What is allowed now is one of the sets that may be allowed from now on, and every such set
  holds what is allowed now. -/
  later_allowed : ∀ h, D.later h (D.allowed h)
  later_mono : ∀ m m' P, D.Leads m m' → D.later m'.heap P → D.later m.heap P
  of_later : ∀ h P code frame, D.later h P → D.allowed h code frame → P code frame
  /-- What may be looked into or be declared in stays so. -/
  sees_mono : ∀ m m' frame, D.Leads m m' → D.sees m.heap frame → D.sees m'.heap frame
  owns_mono : ∀ m m' frame, D.Leads m m' → D.owns m.heap frame → D.owns m'.heap frame
  sees_of_owns : ∀ h frame, D.owns h frame → D.sees h frame
  sees_of_allowed : ∀ h code frame, D.allowed h code frame → D.sees h frame
  /-- What frames and tasks hold may stand in values. -/
  heap : ∀ m, D.Inv m → m.heap.AllClosures (D.allowed m.heap)
  tasks : ∀ m, D.Inv m → ∀ p ∈ m.tasks, D.admits m.heap p.1 p.2.handler
  permits_of_admits : ∀ h name handler, D.admits h name handler → D.PermitsHandler h handler
  admits_script : ∀ h name code frame, D.allowed h code frame →
    D.admits h name (.script code frame)
  newFrame : ∀ m frame, D.Inv m → D.sees m.heap frame →
    D.Leads m (m.mapHeap (·.child (m.heap.chain frame))) ∧
      D.owns (m.heap.child (m.heap.chain frame)) m.heap.size
  declare : ∀ m frame name v constant, D.Inv m → D.owns m.heap frame → D.Fair m.heap v →
    D.Leads m (m.mapHeap (·.declare frame name v constant))
  assign : ∀ m frame name v place, D.Inv m → D.sees m.heap frame → D.Fair m.heap v →
    m.heap.assignee? frame name = some place →
    D.Leads m ((m.noteUnbound frame name).mapHeap (·.declare place name v false))
  register : ∀ m name description handler, D.Inv m → handler.fromRun = true →
    D.admits m.heap name handler →
    D.Leads m { m with tasks := Keyed.put name ⟨description, handler⟩ m.tasks }
  line : ∀ m l, D.Inv m → D.Leads m (m.mapOutput (·.push l) (·.push (.line m.context l)))
  cleared : ∀ m, D.Inv m → D.Leads m (m.mapOutput (fun _ => {}) (·.push (.cleared m.context)))
  slept : ∀ m millis, D.Inv m → D.Leads m (m.mapOutput id (·.push (.slept millis)))
  changed : ∀ m s c reply, D.Inv m →
    D.Leads m { m with store := s, journal := m.journal.push (.changed c reply) }
  read : ∀ m s path reply, D.Inv m →
    D.Leads m { m with store := s, journal := m.journal.push (.read path reply) }
  /-- A call begins one level deeper and comes back from there. -/
  deeper : ∀ m, m.depth < maxDepth → D.Inv m → D.Inv m.deeper
  shallower : ∀ m m', m.depth < maxDepth → D.Inv m → D.Leads m.deeper m' →
    D.Leads m m'.shallower

section

variable {D} {α β : Type} {m : Machine σ} {P Q : Heap → α → Prop} {R : Heap → β → Prop}

namespace Leads

lemma refl (h : D.Inv m) : D.Leads m m :=
  ⟨h, D.refl m, h⟩

lemma trans {m₁ m₂ m₃ : Machine σ} (h : D.Leads m₁ m₂) (h' : D.Leads m₂ m₃) : D.Leads m₁ m₃ :=
  ⟨h.before, D.trans _ _ _ h.step h'.step, h'.after⟩

variable {m' : Machine σ}

lemma allowed (hD : D.Lawful) (h : D.Leads m m') {code : Function} {frame : FrameId}
    (hc : D.allowed m.heap code frame) : D.allowed m'.heap code frame :=
  hD.of_later _ _ code frame (hD.later_mono m m' _ h (hD.later_allowed _)) hc

lemma fair (hD : D.Lawful) (h : D.Leads m m') {v : Value} (hv : D.Fair m.heap v) :
    D.Fair m'.heap v :=
  hv.mono fun _ _ => h.allowed hD

lemma fairAll (hD : D.Lawful) (h : D.Leads m m') {vs : List Value} (hvs : D.FairAll m.heap vs) :
    D.FairAll m'.heap vs :=
  fun v hv => h.fair hD (hvs v hv)

lemma sees (hD : D.Lawful) (h : D.Leads m m') {frame : FrameId} (hf : D.sees m.heap frame) :
    D.sees m'.heap frame :=
  hD.sees_mono m m' frame h hf

lemma owns (hD : D.Lawful) (h : D.Leads m m') {frame : FrameId} (hf : D.owns m.heap frame) :
    D.owns m'.heap frame :=
  hD.owns_mono m m' frame h hf

lemma permits (hD : D.Lawful) (h : D.Leads m m') {a : Action} (ha : D.Permits m.heap a) :
    D.Permits m'.heap a :=
  fun P hP => ha P (hD.later_mono m m' P h hP)

end Leads

/-! ### Procedures of the host -/

section

variable {h : Heap} (hD : D.Lawful)

include hD

lemma PermitsHandler.action {run : List Value → Action} {inRun : Bool}
    (hrun : D.PermitsHandler h (.host run inRun)) {args : List Value} (hargs : D.FairAll h args) :
    D.Permits h (run args) :=
  fun P hP => hrun P hP args fun v hv => (hargs v hv).mono fun code frame =>
    hD.of_later h P code frame hP

lemma Permits.result {v : Value} (hv : D.Permits h (.done v)) : D.Fair h v := by
  cases hv _ (hD.later_allowed h) with
  | done hv => exact hv

lemma Permits.request {request : Request} {next : request.Reply → Action}
    (ha : D.Permits h (.ask request next)) : request.AllClosures (D.allowed h) := by
  cases ha _ (hD.later_allowed h) with
  | ask hrequest => exact hrequest

lemma Permits.next {request : Request} {next : request.Reply → Action}
    (ha : D.Permits h (.ask request next)) {reply : request.Reply}
    (hreply : request.ReplyClosures (D.allowed h) reply) : D.Permits h (next reply) := by
  intro P hP
  cases ha P hP with
  | ask _ hnext => exact hnext reply (hreply.mono fun code frame => hD.of_later h P code frame hP)

omit hD in
lemma Permits.register {name description : String} {run : List Value → Action} {next : Action}
    (ha : D.Permits h (.register name description run next)) :
    D.PermitsHandler h (.host run true) ∧ D.Permits h next := by
  constructor
  · intro P hP
    cases ha P hP with
    | register hrun _ => exact hrun
  · intro P hP
    cases ha P hP with
    | register _ hnext => exact hnext

end

namespace Ends

lemma ofValue {m' : Machine σ} {a : α} (h : D.Leads m m') (ha : Q m'.heap a) :
    D.Ends m Q (.value a, m') := by
  refine ⟨h, fun _ hr => (by cases hr), fun b hb => ?_⟩
  cases hb
  exact ha

lemma ofError {m' : Machine σ} {e : Error} (h : D.Leads m m') :
    D.Ends m Q (.error e, m') :=
  ⟨h, fun _ hr => (by cases hr), fun b hb => by cases hb⟩

lemma ofUnfinished {m' : Machine σ} (h : D.Leads m m') (hend : ¬ D.ending) :
    D.Ends m Q (.unfinished, m') :=
  ⟨h, fun he => absurd he hend, fun b hb => by cases hb⟩

end Ends

/-! ### The monad -/

lemma Safe.mono {x : Exec σ α} (h : D.Safe m x P) (hPQ : ∀ h a, P h a → Q h a) :
    D.Safe m x Q := by
  intro hm
  obtain ⟨h1, h2, h3⟩ := h hm
  exact ⟨h1, h2, fun a ha => hPQ _ a (h3 a ha)⟩

lemma safe_pure {a : α} (h : Q m.heap a) : D.Safe m (pure a : Exec σ α) Q := by
  intro hm
  exact .ofValue (.refl hm) h

/-- The second computation is looked at from every state that the first can lead to. -/
theorem Safe.bind {x : Exec σ α} {f : α → Exec σ β} (hx : D.Safe m x P)
    (hf : ∀ m' a, D.Leads m m' → P m'.heap a → D.Safe m' (f a) R) : D.Safe m (x >>= f) R := by
  intro hm
  obtain ⟨h1, h2, h3⟩ := hx hm
  show D.Ends m R (Exec.bind x f m)
  unfold Exec.bind
  rcases hr : x m with ⟨r, m'⟩
  rw [hr] at h1 h2 h3
  cases r with
  | value a =>
    obtain ⟨h1', h2', h3'⟩ := hf m' a h1 (h3 a rfl) h1.after
    exact ⟨h1.trans h1', h2', h3'⟩
  | error e => exact .ofError h1
  | unfinished => exact .ofUnfinished h1 fun he => h2 he rfl

lemma safe_fail (e : Error) : D.Safe m (Exec.fail e : Exec σ α) Q := by
  intro hm
  exact .ofError (.refl hm)

lemma safe_throw (message : String) :
    D.Safe m (Exec.throw message : Exec σ α) Q :=
  safe_fail _

lemma safe_ofExcept {r : Except String α} (h : ∀ a, r = .ok a → Q m.heap a) :
    D.Safe m (Exec.ofExcept r : Exec σ α) Q := by
  cases r with
  | ok a => exact safe_pure (h a rfl)
  | error message => exact safe_throw message

/-- A step that always ends with a value. -/
lemma safe_step {f : Machine σ → α} {g : Machine σ → Machine σ}
    (h : D.Inv m → D.Leads m (g m) ∧ Q (g m).heap (f m)) :
    D.Safe m (fun m => (.value (f m), g m)) Q := by
  intro hm
  exact .ofValue (h hm).1 (h hm).2

lemma Safe.attempt {x : Exec σ α} (h : D.Safe m x Q) :
    D.Safe m x.attempt fun h r => ∀ a, r = .ok a → Q h a := by
  intro hm
  obtain ⟨h1, h2, h3⟩ := h hm
  unfold Exec.attempt
  rcases hr : x m with ⟨r, m'⟩
  rw [hr] at h1 h2 h3
  cases r with
  | value a =>
    refine .ofValue h1 fun c hc => ?_
    cases hc
    exact h3 a rfl
  | error e => exact .ofValue h1 fun c hc => by cases hc
  | unfinished => exact .ofUnfinished h1 fun he => h2 he rfl

lemma safe_nested (hD : D.Lawful) {x : Exec σ α} (h : D.Safe m.deeper x Q) :
    D.Safe m (Exec.nested x) Q := by
  intro hm
  unfold Exec.nested
  split
  · exact safe_throw _ hm
  · next hlt =>
    have hdepth : m.depth < maxDepth := by omega
    obtain ⟨h1, h2, h3⟩ := h (hD.deeper m hdepth hm)
    exact ⟨hD.shallower m _ hdepth hm h1, h2, h3⟩

/-! ### What needs no law -/

lemma safe_stringArg (name : String) (arg? : Option Value) :
    D.Safe m (Exec.stringArg name arg?) fun _ _ => True := by
  unfold Exec.stringArg
  split
  · exact safe_pure trivial
  · exact safe_throw _
  · exact safe_throw _

lemma safe_callStore {f : σ → Except Failure α × σ} {event : Except Failure α → Event}
    (h : ∀ s reply, D.Inv m →
      D.Leads m { m with store := s, journal := m.journal.push (event reply) }) :
    D.Safe m (Exec.callStore f event) fun _ _ => True :=
  fun hm => .ofValue (h _ _ hm) trivial

/-- A call of the store that has to be carried out. -/
lemma safe_reply {f : σ → Except Failure α × σ} {event : Except Failure α → Event}
    (h : ∀ s reply, D.Inv m →
      D.Leads m { m with store := s, journal := m.journal.push (event reply) }) :
    D.Safe m (do Exec.ofReply (← Exec.callStore f event)) fun _ _ => True := by
  refine Safe.bind (safe_callStore h) fun m' r _ _ => ?_
  cases r with
  | ok a => exact safe_pure trivial
  | error e => exact safe_fail _

/-- The end of a call, where a stray jump is no offence. -/
lemma safe_endCall {flow : Flow} (hstray : D.Inv m → D.Leads m { m with strays := m.strays + 1 })
    (h : D.FairFlow m.heap flow) : D.Safe m (Exec.endCall flow) D.Fair := by
  intro hm
  have hresult : D.Fair m.heap flow.result := by
    cases flow with
    | «return» v => exact h
    | _ => exact .nil
  have hleads : D.Leads m (if flow.isStray then { m with strays := m.strays + 1 } else m) := by
    split
    · exact hstray hm
    · exact .refl hm
  have hheap : (if flow.isStray then { m with strays := m.strays + 1 } else m).heap = m.heap := by
    split <;> rfl
  refine .ofValue hleads ?_
  rw [hheap]
  exact hresult

end

/-! ### Steps of a run -/

namespace Lawful

variable {D} {m : Machine σ} (hD : D.Lawful)

include hD

lemma safe_newFrame {frame : FrameId} (h : D.sees m.heap frame) :
    D.Safe m (Exec.newFrame frame) D.owns :=
  safe_step fun hm => hD.newFrame m frame hm h

lemma safe_declare {frame : FrameId} {name : String} {v : Value} {constant : Bool}
    (h : D.owns m.heap frame) (hv : D.Fair m.heap v) :
    D.Safe m (Exec.declare frame name v constant) fun _ _ => True :=
  safe_step fun hm => ⟨hD.declare m frame name v constant hm h hv, trivial⟩

lemma safe_assign {frame : FrameId} {name : String} {v : Value} (h : D.sees m.heap frame)
    (hv : D.Fair m.heap v) : D.Safe m (Exec.assign frame name v) fun _ _ => True := by
  intro hm
  unfold Exec.assign
  split
  · next place hplace =>
    exact .ofValue (hD.assign m frame name v place hm h hv hplace) trivial
  · exact safe_throw _ hm

lemma safe_register {name description : String} {handler : Handler}
    (hrun : handler.fromRun = true) (h : D.admits m.heap name handler) :
    D.Safe m (Exec.register name ⟨description, handler⟩) fun _ _ => True :=
  safe_step fun hm => ⟨hD.register m name description handler hm hrun h, trivial⟩

lemma safe_emit (kind : LineKind) (text : String) :
    D.Safe m (Exec.emit kind text) fun _ _ => True :=
  safe_step fun hm => ⟨hD.line m ⟨kind, text⟩ hm, trivial⟩

lemma safe_clear : D.Safe m Exec.clear fun _ _ => True :=
  safe_step fun hm => ⟨hD.cleared m hm, trivial⟩

lemma safe_pause (millis : Nat) : D.Safe m (Exec.record (.slept millis)) fun _ _ => True :=
  safe_step fun hm => ⟨hD.slept m millis hm, trivial⟩

lemma safe_change (S : Backend σ) (c : Change) : D.Safe m (Exec.change S c) fun _ _ => True :=
  safe_reply fun s reply hm => hD.changed m s c reply hm

lemma safe_read (S : Backend σ) (path : String) :
    D.Safe m (Exec.read S path) fun _ _ => True :=
  safe_reply fun s reply hm => hD.read m s path reply hm

lemma safe_getHeap : D.Safe m Exec.getHeap fun h h' => h = h' ∧ h'.AllClosures (D.allowed h) :=
  safe_step fun hm => ⟨.refl hm, rfl, hD.heap m hm⟩

lemma safe_getTasks :
    D.Safe m Exec.getTasks fun h r => ∀ p ∈ r, D.admits h p.1 p.2.handler :=
  safe_step fun hm => ⟨.refl hm, hD.tasks m hm⟩

/-! ### Names -/

lemma safe_resolve (frame : FrameId) (name : String) :
    D.Safe m (Exec.resolve frame name) D.Fair := by
  unfold Exec.resolve
  refine hD.safe_getHeap.bind fun m' h _ hh => ?_
  split
  · next v _ hv => exact safe_pure (hh.2.lookup? hv)
  · exact safe_pure (.builtin _)
  · exact safe_throw _

lemma safe_resolveCallable (frame : FrameId) (name : String) :
    D.Safe m (Exec.resolveCallable frame name) D.Fair := by
  unfold Exec.resolveCallable
  refine hD.safe_getHeap.bind fun m' h _ hh => ?_
  dsimp only
  split
  · next v _ hv => exact safe_pure (hh.2.lookup? (Option.filter_eq_some_iff.1 hv).1)
  · exact safe_pure (.builtin _)
  · exact safe_throw _

lemma safe_assignPath {frame : FrameId} {name : String} {path : List Key} {v : Value}
    (h : D.sees m.heap frame) (hv : D.Fair m.heap v) :
    D.Safe m (Exec.assignPath frame name path v) fun _ _ => True := by
  unfold Exec.assignPath
  split
  · exact hD.safe_assign h hv
  · refine hD.safe_getHeap.bind fun m₁ h₁ hlead₁ hh => ?_
    split
    · exact safe_throw _
    · next c hc =>
      have hset : D.Safe m₁ (Exec.ofExcept (setPath c path v)) D.Fair :=
        safe_ofExcept fun r hr =>
          allClosures_setPath (hlead₁.fair hD hv) (hh.2.lookup? hc) hr
      refine hset.bind fun m₂ r hlead₂ hr => ?_
      exact hD.safe_assign ((hlead₁.trans hlead₂).sees hD h) hr

lemma safe_bindParams {frame : FrameId} :
    ∀ (names : List String) (args : List Value) {m : Machine σ}, D.owns m.heap frame →
      D.FairAll m.heap args → D.Safe m (Exec.bindParams frame names args) fun _ _ => True
  | [], _, _, _, _ => safe_pure trivial
  | name :: names, args, m, h, hargs => by
    unfold Exec.bindParams
    have hhead : D.Fair m.heap (args.headD .nil) := Value.AllClosures.headD hargs
    refine (hD.safe_declare h hhead).bind fun m' _ hlead _ => ?_
    refine safe_bindParams names args.tail (hlead.owns hD h) fun v hv => ?_
    exact hlead.fair hD (hargs v (List.mem_of_mem_tail hv))

lemma safe_hoist {frame : FrameId} :
    ∀ (stmts : List Stmt) {m : Machine σ}, D.owns m.heap frame →
      (∀ code, Stmt.function code ∈ stmts → D.allowed m.heap code frame) →
      D.Safe m (Exec.hoist frame stmts) fun _ _ => True
  | [], _, _, _ => safe_pure trivial
  | s :: rest, m, h, hcode => by
    have hrest : ∀ m', D.Leads m m' → D.Safe m' (Exec.hoist frame rest) fun _ _ => True :=
      fun m' hlead => safe_hoist rest (hlead.owns hD h) fun code hc =>
        hlead.allowed hD (hcode code (by simp [hc]))
    intro hm
    have hstay := hrest m (.refl hm) hm
    cases s
    case function code =>
      have hv : D.Fair m.heap (.function code frame) := .function (hcode code (by simp))
      simp only [Exec.hoist]
      cases code.name with
      | none => exact hstay
      | some name => exact (hD.safe_declare h hv).bind (fun m' _ hlead _ => hrest m' hlead) hm
    all_goals exact hstay

/-! ### Functions that every script knows -/

/-- A function that every script knows. -/
theorem safe_callBuiltin (S : Backend σ) {invoke : String → List Value → Exec σ Value}
    {args : List Value} (hargs : D.FairAll m.heap args)
    (hinvoke : ∀ name args, D.FairAll m.heap args → D.Safe m (invoke name args) D.Fair)
    (b : Builtin) : D.Safe m (Exec.callBuiltin S invoke b args) D.Fair := by
  have hpath : ∀ m : Machine σ,
      D.Safe m (Exec.stringArg b.name args[0]?) fun _ _ => True := fun m =>
    safe_stringArg b.name args[0]?
  have hchange : ∀ c : String → Change,
      D.Safe m (do return (← Exec.change S (c (← Exec.stringArg b.name args[0]?))).toValue)
        D.Fair := fun c =>
    (hpath m).bind fun _ path _ _ => (hD.safe_change S (c path)).bind fun _ o _ _ =>
      safe_pure (Value.allClosures_toValue o)
  have htrue : ∀ m : Machine σ, D.Safe m (pure (.bool true) : Exec σ Value) D.Fair := fun m =>
    safe_pure (.bool true)
  unfold Exec.callBuiltin
  cases b with
  | createFile => exact hchange (.createFile · _)
  | deleteFile => exact hchange .deleteFile
  | readFile =>
    exact (hpath m).bind fun _ path _ _ => (hD.safe_read S path).bind fun _ text _ _ =>
      safe_pure (.str _)
  | writeFile => exact hchange (.writeFile · _)
  | createDirectory => exact hchange .createDirectory
  | deleteDirectory => exact hchange .deleteDirectory
  | print => exact (hD.safe_emit _ _).bind fun m' _ _ _ => htrue m'
  | printError => exact (hD.safe_emit _ _).bind fun m' _ _ _ => htrue m'
  | printSuccess => exact (hD.safe_emit _ _).bind fun m' _ _ _ => htrue m'
  | clear => exact hD.safe_clear.bind fun m' _ _ _ => htrue m'
  | sleep =>
    cases args with
    | nil => exact (hD.safe_pause _).bind fun _ _ _ _ => safe_pure .nil
    | cons v rest =>
      have hmillis : D.Safe m (Exec.ofExcept (expectNumber v "sleep duration")) fun _ _ => True :=
        safe_ofExcept fun _ _ => trivial
      refine hmillis.bind fun _ x _ _ => ?_
      exact (hD.safe_pause _).bind fun _ _ _ _ => safe_pure .nil
  | runTask =>
    dsimp only
    split
    · next task rest => exact hinvoke task rest fun v hv => hargs v (by simp [hv])
    · exact safe_throw _
  | registerTask =>
    refine (hpath m).bind fun m' name hlead _ => ?_
    dsimp only
    split
    · next code frame hc =>
      have hf := hlead.fair hD (hargs _ (List.mem_of_getElem? hc))
      cases hf with
      | function hcode =>
        have hadmits := hD.admits_script _ name code frame hcode
        exact (hD.safe_register rfl hadmits).bind fun m'' _ _ _ => htrue m''
    · exact safe_throw _

end Lawful

end Discipline

end ScriptedNotes.Run
