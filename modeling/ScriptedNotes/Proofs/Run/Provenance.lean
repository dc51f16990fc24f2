import Mathlib.Tactic.Common
import ScriptedNotes.Proofs.Run.Candor

/-!
Where errors of the store come from. When a run ends with such an error, the last call that the run
made is the one that failed, and the error's message is that of its failure, all causes in a line.
Neither a `throw` nor what a handler does with a failure nor an outcome that turns a call down makes
such an error; of procedures of the host it is asked that they make none up. What a run has entered
in the journal has to account for its error in this way (`blaming`); the single steps of a run see
to it, and what is put together from them does too.
-/

namespace ScriptedNotes.Run

open Script (Compiled)

/-- How the calls of the store went, in order. -/
def callsOf (events : List Event) : List (Except Failure Unit) :=
  events.filterMap Event.call?

lemma callsOf_append (events events' : List Event) :
    callsOf (events ++ events') = callsOf events ++ callsOf events' :=
  List.filterMap_append

/-- The last call failed, and the message tells all causes of the failure. -/
def BlamesLast (events : List Event) (message : String) : Prop :=
  ∃ f : Failure, (callsOf events).getLast? = some (.error f) ∧ message = f.message

/-- The calls before the last do not matter. -/
lemma BlamesLast.prepend {events : List Event} {message : String} (h : BlamesLast events message)
    (before : List Event) : BlamesLast (before ++ events) message := by
  obtain ⟨f, hlast, hmessage⟩ := h
  refine ⟨f, ?_, hmessage⟩
  rw [callsOf_append, List.getLast?_append, hlast]
  rfl

/-- What is no call does not matter behind the last. -/
lemma BlamesLast.append {events after : List Event} {message : String}
    (h : BlamesLast events message) (hafter : callsOf after = []) :
    BlamesLast (events ++ after) message := by
  obtain ⟨f, hlast, hmessage⟩ := h
  refine ⟨f, ?_, hmessage⟩
  rw [callsOf_append, hafter, List.append_nil, hlast]

/-- The error says that a call could not be carried out. -/
def Error.IsStorage (e : Error) : Prop :=
  ∃ message, e = .storage message

lemma Error.not_isStorage_thrown (message : String) : ¬ (Error.thrown message).IsStorage := by
  rintro ⟨_, h⟩
  cases h

variable {σ : Type}

/-- An error of the store has to be explained by the calls that were made behind `base`. -/
def blaming (σ : Type) (base : Array Event) : Account σ where
  concerns := Error.IsStorage
  Inv m := m.tasks.Candid Error.IsStorage ∧
    ∃ events, m.journal.toList = base.toList ++ events
  explains m e := ∀ message, e = .storage message →
    ∃ events, m.journal.toList = base.toList ++ events ∧ BlamesLast events message

lemma lawful_blaming (base : Array Event) : (blaming σ base).Lawful where
  thrown := Error.not_isStorage_thrown
  unconcerned _ _ h message he := absurd ⟨message, he⟩ h
  missing _ _ _ message he := by cases he
  candid _ h := h.1
  registered _ name task htask h := ⟨h.1.put htask name task.description, h.2⟩
  inward m m' htasks hjournal := by
    constructor
    · rintro ⟨hcandid, hevents⟩
      exact ⟨htasks ▸ hcandid, hjournal ▸ hevents⟩
    · intro e h message he
      rw [hjournal]
      exact h message he
  entered m m' event htasks hjournal := by
    have hpush : ∀ {events}, m.journal.toList = base.toList ++ events →
        m'.journal.toList = base.toList ++ (events ++ [event]) := by
      intro events hevents
      rw [hjournal, Array.toList_push, hevents, List.append_assoc]
    refine ⟨?_, ?_, ?_⟩
    · rintro ⟨hcandid, events, hevents⟩
      exact ⟨htasks ▸ hcandid, _, hpush hevents⟩
    · rintro ⟨-, events, hevents⟩ f hcall message he
      cases he
      have hlast : callsOf [event] = [.error f] := by
        simp only [callsOf, List.filterMap_cons, List.filterMap_nil, hcall]
      refine ⟨_, hpush hevents, BlamesLast.prepend ⟨f, ?_, rfl⟩ events⟩
      rw [hlast]
      rfl
    · intro hquiet e h message he
      obtain ⟨events, hevents, hblames⟩ := h message he
      refine ⟨_, hpush hevents, hblames.append ?_⟩
      simp only [callsOf, List.filterMap_cons, List.filterMap_nil, hquiet]

/-- A store that carries out nothing. -/
def brokenStore : Backend Unit where
  change _ _ := (.error ⟨["cannot write", "disk full"]⟩, ())
  read _ _ := (.error ⟨["cannot read"]⟩, ())

/-- A procedure of the host that goes on when a file cannot be read, and gives up when another one
cannot be made. -/
def salvage : List Value → Action := fun _ =>
  .ask (.read "a") fun
    | .ok text => .done (.str text)
    | .error _ => .ask (.change (.createFile "b" "")) fun
      | .ok o => .done o.toValue
      | .error e => .emit .error "giving up" (.fail e)

/-- Catches the failure of a first call, tells of it, and leaves the rest to a task. -/
def secondAttempt : Compiled where
  tier := .advanced
  program :=
    [.try [.expr (.callNamed "readFile" [.str "a"])] [.expr (.callNamed "print" [.ident "error"])],
      .expr (.callNamed "runTask" [.str "salvage"])]

/-- The state in which a run begins where nothing has happened yet. -/
def beginning : Machine Unit where
  tasks := Keyed.put "salvage" ⟨"", .host salvage⟩ Registry.builtin
  store := ()
  context := "note"

end ScriptedNotes.Run
