import Mathlib.Tactic.Common
import ScriptedNotes.Proofs.Run.Correspondence
import ScriptedNotes.Proofs.Run.Discipline

/-!
Errors that runs account for. The state in which a run ends may have to explain the error that it
ends with: where the error is one of the store, a call has failed, and where a task is missing,
there is none of that name. An account says what has to be explained and by which states. The single
steps of a run explain their errors, and what is put together from them does so too
(`Account.evaluator`).

A procedure of the host may end with any error. It is candid when it ends with errors that have to
be explained only when it was replied them: then it has such an error in hand, and may hand it on
until it asks for something else that can fail.
-/

namespace ScriptedNotes.Run

open Script (Compiled Program)

/-! ### Candid procedures -/

/-- The error of a reply that is one. -/
def failureOf? {α : Type} : Except Error α → Option Error
  | .error e => some e
  | .ok _ => none

/-- The error that a procedure has in hand with the reply to a request, if it had `hand` before. -/
def Request.inHand (hand : Option Error) : (request : Request) → request.Reply → Option Error
  | .change _, reply => failureOf? reply
  | .read _, reply => failureOf? reply
  | .call .., reply | .invoke .., reply => failureOf? reply
  | .emit .., _ | .clear, _ | .sleep _, _ | .tasks, _ => hand

/-- With this error in hand, the procedure ends with errors of the kind only that it then has in
hand; so do those that it registers, which begin with none. -/
inductive Action.Candid (kind : Error → Prop) : Option Error → Action → Prop where
  | done (hand : Option Error) (v : Value) : Action.Candid kind hand (.done v)
  | fail {hand : Option Error} {e : Error} (h : kind e → hand = some e) :
      Action.Candid kind hand (.fail e)
  | ask {hand : Option Error} {request : Request} {next : request.Reply → Action}
      (h : ∀ reply, Action.Candid kind (request.inHand hand reply) (next reply)) :
      Action.Candid kind hand (.ask request next)
  | register {hand : Option Error} {name description : String} {run : List Value → Action}
      {next : Action} (hrun : ∀ args, Action.Candid kind none (run args))
      (hnext : Action.Candid kind none next) :
      Action.Candid kind hand (.register name description run next)

/-- A procedure of the host is candid. -/
def Handler.Candid (kind : Error → Prop) : Handler → Prop
  | .script .. => True
  | .host run _ => ∀ args, (run args).Candid kind none

/-- The procedures of the host are candid about errors of the kind. -/
def Registry.Candid (kind : Error → Prop) (r : Registry) : Prop :=
  ∀ p ∈ r, p.2.handler.Candid kind

section

variable {kind : Error → Prop} {hand : Option Error} {next : Action}

lemma Action.Candid.emit (h : next.Candid kind hand) (lineKind : LineKind) (text : String) :
    (Action.emit lineKind text next).Candid kind hand :=
  .ask fun _ => h

lemma Action.Candid.change {c : Change} {next : Outcome → Action}
    (h : ∀ o, (next o).Candid kind none) : (Action.change c next).Candid kind hand := by
  refine .ask fun reply => ?_
  cases reply with
  | ok o => exact h o
  | error e => exact .fail fun _ => rfl

lemma Action.Candid.createFiles (h : ∀ hand, next.Candid kind hand) :
    ∀ (files : List (String × String)) (hand : Option Error),
      (Action.createFiles files next).Candid kind hand
  | [], hand => h hand
  | _ :: rest, _ => .change fun _ => Action.Candid.createFiles h rest none

lemma Registry.Candid.put {r : Registry} (hr : r.Candid kind) {handler : Handler}
    (h : handler.Candid kind) (name description : String) :
    Registry.Candid kind (Keyed.put name ⟨description, handler⟩ r) :=
  forall_put (A := fun p : String × Task => p.2.handler.Candid kind) h hr

/-- The task that is there from the start hands errors of the store on. -/
lemma candid_builtin (hthrown : ∀ message, ¬ kind (.thrown message)) :
    Registry.builtin.Candid kind := by
  intro p hp
  rw [List.mem_singleton.1 hp]
  intro args
  unfold scaffold
  extract_lets name template files
  split
  · exact .fail fun h => absurd h (hthrown _)
  · have hdone : ∀ hand, (Action.done (.bool true)).Candid kind hand := fun hand => .done hand _
    exact .emit (.change fun _ => .createFiles (fun hand => .emit (hdone hand) _ _) files none) _ _

end

/-! ### Accounts -/

/-- How a call of the store went, when the event is one. -/
def Event.call? : Event → Option (Except Failure Unit)
  | .changed _ reply => some (reply.map fun _ => ())
  | .read _ reply => some (reply.map fun _ => ())
  | .line .. | .cleared _ | .slept _ | .refreshed _ => none

variable {σ α β : Type}

/-- What is asked of the errors of a run. -/
structure Account (σ : Type) where
  /-- The errors that have to be explained. -/
  concerns : Error → Prop
  /-- Holds of every state of the run. -/
  Inv : Machine σ → Prop
  /-- A computation may end in the state with the error. -/
  explains : Machine σ → Error → Prop

namespace Account

/-- The single steps of a run explain their errors. -/
structure Lawful (A : Account σ) : Prop where
  thrown : ∀ message, ¬ A.concerns (.thrown message)
  unconcerned : ∀ m e, ¬ A.concerns e → A.explains m e
  missing : ∀ m name, Keyed.get? name m.tasks = none → A.explains m (.taskNotFound name)
  candid : ∀ m, A.Inv m → m.tasks.Candid A.concerns
  registered : ∀ m name task, task.handler.Candid A.concerns → A.Inv m →
    A.Inv { m with tasks := Keyed.put name task m.tasks }
  /-- Only the tasks and the journal matter. -/
  inward : ∀ m m', m'.tasks = m.tasks → m'.journal = m.journal →
    (A.Inv m → A.Inv m') ∧ ∀ e, A.explains m e → A.explains m' e
  /-- A call of the store explains its failure, and what is no call changes no explanation. -/
  entered : ∀ m m' event, m'.tasks = m.tasks → m'.journal = m.journal.push event →
    (A.Inv m → A.Inv m') ∧
    (A.Inv m → ∀ f, event.call? = some (.error f) → A.explains m' (.storage f.message)) ∧
    (event.call? = none → ∀ e, A.explains m e → A.explains m' e)

/-- The invariant holds of the state in which a computation ended, and that explains its error. -/
structure Ends (A : Account σ) (end_ : Result α × Machine σ) : Prop where
  inv : A.Inv end_.2
  explains : ∀ e, end_.1 = .error e → A.explains end_.2 e

/-- The computation explains its error if it ends with one. -/
def Answers (A : Account σ) (x : Exec σ α) : Prop :=
  ∀ m, A.Inv m → A.Ends (x m)

section

variable {A : Account σ}

/-! ### The rules -/

lemma Ends.of_value {m : Machine σ} (h : A.Inv m) (a : α) : A.Ends (.value a, m) :=
  ⟨h, fun e he => by cases he⟩

lemma Ends.of_unfinished {m : Machine σ} (h : A.Inv m) :
    A.Ends ((.unfinished, m) : Result α × Machine σ) :=
  ⟨h, fun e he => by cases he⟩

lemma Ends.of_error {m : Machine σ} (h : A.Inv m) {e : Error} (he : A.explains m e) :
    A.Ends ((.error e, m) : Result α × Machine σ) := by
  refine ⟨h, fun e' he' => ?_⟩
  cases he'
  exact he

lemma Answers.bind {x : Exec σ α} {k : α → Exec σ β} (hx : A.Answers x)
    (hk : ∀ a, A.Answers (k a)) : A.Answers (x >>= k) := by
  intro m hm
  obtain ⟨hinv, hexplains⟩ := hx m hm
  show A.Ends (Exec.bind x k m)
  unfold Exec.bind
  rcases hr : x m with ⟨r, m'⟩
  rw [hr] at hinv hexplains
  cases r with
  | value a => exact hk a m' hinv
  | error e => exact .of_error hinv (hexplains e rfl)
  | unfinished => exact .of_unfinished hinv

/-- Whoever goes on after an error has accounted for it. -/
lemma Answers.attempt {x : Exec σ α} (hx : A.Answers x) : A.Answers (Exec.attempt x) := by
  intro m hm
  have hinv := (hx m hm).inv
  unfold Exec.attempt
  rcases hr : x m with ⟨r, m'⟩
  rw [hr] at hinv
  cases r with
  | value a => exact .of_value hinv _
  | error e => exact .of_value hinv _
  | unfinished => exact .of_unfinished hinv

/-- The error of an attempt is explained where the attempt ended. -/
lemma Answers.of_attempt {x : Exec σ α} (hx : A.Answers x) {m m' : Machine σ} (hm : A.Inv m)
    {e : Error} (hend : Exec.attempt x m = (.value (.error e), m')) : A.explains m' e := by
  have hexplains := (hx m hm).explains
  unfold Exec.attempt at hend
  rcases hr : x m with ⟨r, m''⟩
  rw [hr] at hend hexplains
  cases r <;> cases hend
  exact hexplains e rfl

variable (hA : A.Lawful)

include hA

/-- A step that changes neither the tasks nor the journal and raises no error. -/
lemma Lawful.inwardly {x : Exec σ α} (hsame : ∀ m, (x m).2.tasks = m.tasks ∧
    (x m).2.journal = m.journal) (hend : ∀ m e, (x m).1 = .error e → ¬ A.concerns e) :
    A.Answers x :=
  fun m hm => ⟨(hA.inward m _ (hsame m).1 (hsame m).2).1 hm,
    fun e he => hA.unconcerned _ e (hend m e he)⟩

/-- A step that enters one event in the journal, no call of the store. -/
lemma Lawful.enters {x : Exec σ α} (hsame : ∀ m, (x m).2.tasks = m.tasks ∧
    ∃ event, (x m).2.journal = m.journal.push event) (hend : ∀ m e, (x m).1 ≠ .error e) :
    A.Answers x := by
  intro m hm
  obtain ⟨htasks, event, hjournal⟩ := hsame m
  exact ⟨(hA.entered m _ event htasks hjournal).1 hm, fun e he => absurd he (hend m e)⟩

lemma Lawful.nested {x : Exec σ α} (hx : A.Answers x) : A.Answers (Exec.nested x) := by
  intro m hm
  by_cases hroom : m.depth < maxDepth
  · rw [Exec.nested_of_lt hroom]
    obtain ⟨hinv, hexplains⟩ := hx m.deeper ((hA.inward m m.deeper rfl rfl).1 hm)
    have hback := hA.inward (x m.deeper).2 (x m.deeper).2.shallower rfl rfl
    exact ⟨hback.1 hinv, fun e he => hback.2 e (hexplains e he)⟩
  · rw [Exec.nested_of_le (Nat.not_lt.1 hroom)]
    exact .of_error hm (hA.unconcerned m _ (hA.thrown _))

/-- A call of the store that has to be carried out. -/
lemma Lawful.call {f : σ → Except Failure α × σ} {event : Except Failure α → Event}
    (hevent : ∀ reply, (event reply).call? = some (reply.map fun _ => ())) :
    A.Answers (do Exec.ofReply (← Exec.callStore f event)) := by
  intro m hm
  have hend : (do Exec.ofReply (← Exec.callStore f event) : Exec σ α) m =
      Exec.ofReply (f m.store).1
        { m with store := (f m.store).2, journal := m.journal.push (event (f m.store).1) } := rfl
  obtain ⟨hinv, hfailed, -⟩ := hA.entered m
    { m with store := (f m.store).2, journal := m.journal.push (event (f m.store).1) } _ rfl rfl
  rw [hend]
  cases hreply : (f m.store).1 with
  | ok a =>
    rw [hreply] at hinv
    exact .of_value (hinv hm) a
  | error failure =>
    rw [hreply] at hinv hfailed
    exact .of_error (hinv hm) (hfailed hm failure (hevent (.error failure)))

end

/-! ### The evaluator -/

/-- Computations that explain their errors, as a correspondence: of a run with itself, whatever its
frames and values. -/
def answering (A : Account σ) : Correspondence σ where
  rename := id
  rel _ x _ := A.Answers x

section

variable {A : Account σ} (hA : A.Lawful) (S : Backend σ)

include hA

lemma Lawful.steps : A.answering.Steps S where
  pure _ _ := hA.inwardly (fun _ => ⟨rfl, rfl⟩) fun _ _ h => by cases h
  bind hx hk := hx.bind hk
  thrown _ message := hA.inwardly (fun _ => ⟨rfl, rfl⟩) fun _ _ h => by
    cases h
    exact hA.thrown message
  unfinished _ := hA.inwardly (fun _ => ⟨rfl, rfl⟩) fun _ _ h => by cases h
  attempt hx := hx.attempt
  nested hx := hA.nested hx
  endCall flow := by
    refine hA.inwardly (fun m => ?_) fun _ _ h => by cases h
    unfold Exec.endCall
    cases flow.isStray <;> exact ⟨rfl, rfl⟩
  lookup _ _ := hA.inwardly (fun _ => ⟨rfl, rfl⟩) fun _ _ h => by cases h
  newFrame _ := hA.inwardly (fun _ => ⟨rfl, rfl⟩) fun _ _ h => by cases h
  declare _ _ _ _ := hA.inwardly (fun _ => ⟨rfl, rfl⟩) fun _ _ h => by cases h
  assign frame name v := by
    refine hA.inwardly (fun m => ?_) fun m e h => ?_
    · unfold Exec.assign
      split <;> exact ⟨rfl, rfl⟩
    · unfold Exec.assign at h
      split at h <;> cases h
      exact hA.thrown _
  register name _ code frame m hm :=
    ⟨hA.registered m name _ trivial hm, fun e h => by cases h⟩
  emit _ _ := hA.enters (fun _ => ⟨rfl, _, rfl⟩) fun _ _ h => by cases h
  clear := hA.enters (fun _ => ⟨rfl, _, rfl⟩) fun _ _ h => by cases h
  sleep _ := hA.enters (fun _ => ⟨rfl, _, rfl⟩) fun _ _ h => by cases h
  change _ := hA.call fun _ => rfl
  read _ := hA.call fun _ => rfl
  listTasks := hA.inwardly (fun _ => ⟨rfl, rfl⟩) fun _ _ h => by cases h

variable {call : Value → List Value → Exec σ Value} {invoke : String → List Value → Exec σ Value}
variable (hcall : ∀ f args, A.Answers (call f args))
variable (hinvoke : ∀ name args, A.Answers (invoke name args))

include hcall hinvoke

/-- The reply to a request explains the error that the procedure then has in hand. -/
lemma Lawful.answer (request : Request) {hand : Option Error} {m : Machine σ} (hm : A.Inv m)
    (hhand : ∀ e, hand = some e → A.explains m e) :
    A.Inv (Exec.answer S call invoke request m).2 ∧
    (∀ e, (Exec.answer S call invoke request m).1 ≠ .error e) ∧
    ∀ reply, (Exec.answer S call invoke request m).1 = .value reply →
      ∀ e, request.inHand hand reply = some e →
        A.explains (Exec.answer S call invoke request m).2 e := by
  have hattempt : ∀ {α : Type} {x : Exec σ α}, A.Answers x → A.Inv (Exec.attempt x m).2 ∧
      (∀ e, (Exec.attempt x m).1 ≠ .error e) ∧
      ∀ reply, (Exec.attempt x m).1 = .value reply → ∀ e, failureOf? reply = some e →
        A.explains (Exec.attempt x m).2 e := by
    intro α x hx
    refine ⟨(hx.attempt m hm).inv, fun e => ?_, fun reply hreply e he => ?_⟩
    · unfold Exec.attempt
      rcases x m with ⟨_ | _ | _, m'⟩ <;> rintro ⟨⟩
    · cases reply with
      | ok a => cases he
      | error e' =>
        cases he
        exact hx.of_attempt hm (Prod.ext hreply rfl)
  have hentered : ∀ (m' : Machine σ) event, m'.tasks = m.tasks →
      m'.journal = m.journal.push event → event.call? = none →
      A.Inv m' ∧ ∀ e, hand = some e → A.explains m' e := fun m' event htasks hjournal hevent =>
    have hkept := hA.entered m m' event htasks hjournal
    ⟨hkept.1 hm, fun e he => hkept.2.2 hevent e (hhand e he)⟩
  have hsteps := hA.steps S
  cases request with
  | emit kind text =>
    obtain ⟨hinv, hkept⟩ := hentered (Exec.emit kind text m).2 _ rfl rfl rfl
    exact ⟨hinv, fun _ h => (by cases h), fun _ _ => hkept⟩
  | clear =>
    obtain ⟨hinv, hkept⟩ := hentered (Exec.clear m).2 _ rfl rfl rfl
    exact ⟨hinv, fun _ h => (by cases h), fun _ _ => hkept⟩
  | sleep millis =>
    obtain ⟨hinv, hkept⟩ := hentered (Exec.sleep millis m).2 _ rfl rfl rfl
    exact ⟨hinv, fun _ h => (by cases h), fun _ _ => hkept⟩
  | change c => exact hattempt (hsteps.change c)
  | read path => exact hattempt (hsteps.read path)
  | call f args => exact hattempt (hcall f args)
  | invoke name args => exact hattempt (hinvoke name args)
  | tasks => exact ⟨hm, fun _ h => (by cases h), fun _ _ => hhand⟩

/-- A candid procedure of the host, when the error that it has in hand is explained. -/
lemma Lawful.perform {hand : Option Error} {a : Action} (ha : a.Candid A.concerns hand)
    {m : Machine σ} (hm : A.Inv m) (hhand : ∀ e, hand = some e → A.explains m e) :
    A.Ends (Exec.perform S call invoke a m) := by
  induction ha generalizing m with
  | done hand v => exact .of_value hm v
  | @fail hand e h =>
    by_cases hconcerns : A.concerns e
    · exact .of_error hm (hhand e (h hconcerns))
    · exact .of_error hm (hA.unconcerned m e hconcerns)
  | @ask hand request next _ ih =>
    obtain ⟨hinv, hnone, hexplains⟩ := hA.answer S hcall hinvoke request hm hhand
    show A.Ends (Exec.bind (Exec.answer S call invoke request)
      (fun reply => Exec.perform S call invoke (next reply)) m)
    unfold Exec.bind
    rcases hr : Exec.answer S call invoke request m with ⟨r, m'⟩
    rw [hr] at hinv hnone hexplains
    cases r with
    | value reply => exact ih reply hinv (hexplains reply rfl)
    | error e => exact absurd rfl (hnone e)
    | unfinished => exact .of_unfinished hinv
  | @register hand name description run next hrun _ _ ih =>
    exact ih (hA.registered m name ⟨description, .host run true⟩ hrun hm) fun e he => by cases he

end

section

variable {A : Account σ} (hA : A.Lawful) (S : Backend σ) (fuel : Nat)

include hA

/-- **The evaluator explains its errors**, whatever its fuel. -/
theorem evaluator : A.answering.EvaluatorCorresponds S fuel := by
  refine Correspondence.evaluatorCorresponds_of_invoke (hA.steps S)
    (fun fuel ih name args => ?_) fuel
  intro m hm
  have htaskOf : ∀ k : Option Task → Exec σ Value,
      (Exec.taskOf? name >>= k) m = k (Keyed.get? name m.tasks) m := fun _ => rfl
  show A.Ends (invoke S (fuel + 1) name args m)
  rw [Exec.invoke_eq, htaskOf]
  cases htask : Keyed.get? name m.tasks with
  | none => exact .of_error hm (hA.missing m name htask)
  | some task =>
    have hcandid := hA.candid m hm _ (mem_of_get? htask)
    obtain ⟨description, handler⟩ := task
    cases handler with
    | script code frame => exact ih.call (.function code frame) args m hm
    | host run inRun =>
      exact hA.perform S ih.call ih.invoke (hcandid args) hm fun e he => by cases he

/-- A program, whose global frame is of no account. -/
lemma answers_runProgram (program : Program) : A.Answers (runProgram S fuel program) := by
  intro m hm
  have hroot := (hA.inward m { m with heap := m.heap.root.2 } rfl rfl).1 hm
  exact (evaluator hA S fuel).block m.heap.size program _ hroot

/-- A script tells of its failure before it raises it again. -/
theorem answers_runScript (script : Compiled) : A.Answers (runScript S fuel script) := by
  intro m hm
  have hprogram := answers_runProgram hA S fuel script.program
  have hattempt := hprogram.attempt m hm
  unfold runScript
  show A.Ends (Exec.bind (Exec.attempt (runProgram S fuel script.program)) _ m)
  unfold Exec.bind
  rcases hr : Exec.attempt (runProgram S fuel script.program) m with ⟨r, m'⟩
  rw [hr] at hattempt
  obtain ⟨hinv, hexplains⟩ := hattempt
  cases r with
  | error e => exact .of_error hinv (hexplains e rfl)
  | unfinished => exact .of_unfinished hinv
  | value result =>
    cases result with
    | ok flow => exact .of_value hinv ()
    | error e =>
      have hexplains := hprogram.of_attempt hm hr
      by_cases hadvanced : script.tier = .advanced
      · simp only [if_pos hadvanced]
        obtain ⟨hinv', -, hkept⟩ := hA.entered m'
          (Exec.emit .error ("Automation error: " ++ e.message) m').2 _ rfl rfl
        exact .of_error (hinv' hinv) (hkept rfl e hexplains)
      · simp only [if_neg hadvanced]
        exact .of_error hinv hexplains

end

end Account

end ScriptedNotes.Run
