import Mathlib.Tactic.Common
import ScriptedNotes.Proofs.Session.ContextRun

/-!
What is sent out and what is on show. A line is pushed to a terminal and entered in the journal by
the same step, and so is the emptying of a terminal; whoever is sent the entries of the journal can
replay them. Here it is shown that the replay gives the lines of the terminal: for a context from
whatever lines one starts, since its run begins with a clear, and for a task from none.
-/

namespace ScriptedNotes.Run

/-- The context that an event comes from, if the event is sent out. -/
def Event.sender? : Event → Option String
  | .line context _ | .cleared context => some context
  | .changed .. | .read .. | .slept _ | .refreshed _ => none

/-- What is on show after an event. -/
def Event.replayOn (lines : List Line) : Event → List Line
  | .line _ l => lines ++ [l]
  | .cleared _ => []
  | .changed .. | .read .. | .slept _ | .refreshed _ => lines

/-- What is on show after events, one after another. -/
def replay (start : List Line) (events : List Event) : List Line :=
  events.foldl Event.replayOn start

/-- The events that are sent out. -/
def sentOf (journal : List Event) : List Event :=
  journal.filter (·.sender?.isSome)

lemma replay_append (start : List Line) (events events' : List Event) :
    replay start (events ++ events') = replay (replay start events) events' := by
  simp [replay, List.foldl_append]

lemma sentOf_append (events events' : List Event) :
    sentOf (events ++ events') = sentOf events ++ sentOf events' := by
  simp [sentOf]

/-- What is not sent out is not missed. -/
lemma replay_sentOf (start : List Line) (events : List Event) :
    replay start (sentOf events) = replay start events := by
  induction events generalizing start with
  | nil => rfl
  | cons e rest ih =>
    have hcons : replay start (e :: rest) = replay (e.replayOn start) rest := rfl
    rw [hcons, ← ih]
    cases e <;> rfl

/-- The events come from one context, and replaying them from any of the given lines shows what the
terminal shows. -/
structure Tells (id : String) (starts : List Line → Prop) (events : List Event) (t : Terminal) :
    Prop where
  sender : ∀ e ∈ events, e.sender? = some id
  lines : ∀ start, starts start → replay start events = t.lines.toList

/-! ### The invariant of a run -/

variable {σ : Type} {id : String} {starts : List Line → Prop}

/-- What the journal of a state sends out tells of its terminal. -/
structure Mirrors (id : String) (starts : List Line → Prop) (m : Machine σ) : Prop where
  context : m.context = id
  tells : Tells id starts (sentOf m.journal.toList) m.terminal

namespace Mirrors

variable {m m' : Machine σ}

/-- One more entry in the journal, with its effect on the terminal. -/
lemma push (h : Mirrors id starts m) (e : Event) (hcontext : m'.context = m.context)
    (hjournal : m'.journal = m.journal.push e)
    (hterminal : m'.terminal.lines.toList = e.replayOn m.terminal.lines.toList)
    (hsender : ∀ context, e.sender? = some context → context = m.context) :
    Mirrors id starts m' := by
  refine ⟨hcontext.trans h.context, fun e' he' => ?_, fun start hstart => ?_⟩
  · rw [hjournal, Array.toList_push, sentOf_append, List.mem_append] at he'
    rcases he' with he' | he'
    · exact h.tells.sender e' he'
    · obtain ⟨hmem, hsome⟩ := List.mem_filter.1 he'
      obtain ⟨context, hc⟩ := Option.isSome_iff_exists.1 hsome
      rw [List.mem_singleton.1 hmem] at hc ⊢
      rw [hc, hsender context hc, h.context]
  · rw [replay_sentOf, hjournal, Array.toList_push, replay_append, ← replay_sentOf start,
      h.tells.lines start hstart, hterminal]
    rfl

/-- An entry that shows nothing. -/
lemma pushSilent (h : Mirrors id starts m) (e : Event) (hcontext : m'.context = m.context)
    (hjournal : m'.journal = m.journal.push e) (hterminal : m'.terminal = m.terminal)
    (hsilent : e.sender? = none) : Mirrors id starts m' := by
  refine h.push e hcontext hjournal ?_ fun context hc => ?_
  · rw [hterminal]
    cases e <;> first | rfl | cases hsilent
  · rw [hsilent] at hc
    cases hc

end Mirrors

/-- The discipline of output: what is sent out tells of the terminal. -/
def mirroring (σ : Type) (id : String) (starts : List Line → Prop) : Discipline σ :=
  .ofStates (Mirrors id starts) (fun _ _ => True) (fun _ => trivial) fun _ _ _ _ _ => trivial

lemma laws_mirroring : (mirroring σ id starts).StateLaws where
  inward _ _ h _ hcontext hterminal hjournal :=
    ⟨h, trivial, hcontext.trans h.context, by rw [hterminal, hjournal]; exact h.tells⟩
  register _ _ _ _ h _ := ⟨h, trivial, h.context, h.tells⟩
  line m l h :=
    ⟨h, trivial, h.push (.line m.context l) rfl rfl (Array.toList_push ..) fun _ hc => by
      cases hc; rfl⟩
  cleared m h := ⟨h, trivial, h.push (.cleared m.context) rfl rfl rfl fun _ hc => by cases hc; rfl⟩
  slept _ millis h := ⟨h, trivial, h.pushSilent (.slept millis) rfl rfl rfl rfl⟩
  changed _ _ c reply h := ⟨h, trivial, h.pushSilent (.changed c reply) rfl rfl rfl rfl⟩
  read _ _ path reply h := ⟨h, trivial, h.pushSilent (.read path reply) rfl rfl rfl rfl⟩

end ScriptedNotes.Run

namespace ScriptedNotes

open Run Run.Exec Run.Discipline

variable {σ : Type} (host : Host σ)

/-! ### A run of a context -/

section

variable {id : String} {m : Machine σ}

/-- A clear lets a journal that is empty yet tell of the terminal, whatever it showed before. -/
lemma mirrors_clear (hcontext : m.context = id) (hjournal : m.journal = #[]) :
    Mirrors id (fun _ => True) (clear m).2 := by
  refine ⟨hcontext, fun e he => ?_, fun start _ => ?_⟩
  · have he' : e ∈ sentOf (m.journal.push (.cleared m.context)).toList := he
    rw [hjournal, hcontext] at he'
    have heq : e = .cleared id := List.mem_singleton.1 he'
    rw [heq]
    rfl
  · show replay start (sentOf (m.journal.push (.cleared m.context)).toList) = []
    rw [hjournal]
    rfl

/-- What the journal of a context's run sends out tells of the context's terminal. -/
theorem mirrors_contextRun (compiled : Except Script.SyntaxError Script.Compiled)
    (hcontext : m.context = id) (hjournal : m.journal = #[]) :
    Mirrors id (fun _ => True) (contextRun host compiled m).2 := by
  have hD : AllowsSessions (mirroring σ id fun _ => True) :=
    ⟨root_ofStates laws_mirroring, fun _ _ reply h =>
      ⟨h, trivial, h.pushSilent (.refreshed reply) rfl rfl rfl rfl⟩⟩
  exact (leads_contextRun (lawful_ofStates laws_mirroring) (liberal_ofStates laws_mirroring) hD host
    compiled (mirrors_clear hcontext hjournal)).after

end

namespace Session

/-- All that a session has sent out. -/
def stream (s : Session σ) : List Event :=
  sentOf s.journal.toList

/-- What is sent out on the way to a later session. -/
def sentUntil (s s' : Session σ) : List Event :=
  sentOf (s'.journal.toList.drop s.journal.size)

/-- What each of the contexts sends out when they are run one after another. -/
def sentByEach (s : Session σ) : List Context → List (List Event)
  | [] => []
  | c :: rest =>
    s.sentUntil (s.execute host c).2 :: (s.execute host c).2.sentByEach rest

lemma sentUntil_resume (s : Session σ) (m : Machine σ) :
    s.sentUntil (s.resume m) = sentOf m.journal.toList := by
  have hdrop : (s.journal ++ m.journal).toList.drop s.journal.size = m.journal.toList := by
    rw [Array.toList_append, ← Array.length_toList, List.drop_left]
  unfold sentUntil resume
  rw [hdrop]

lemma stream_resume (s : Session σ) (m : Machine σ) :
    (s.resume m).stream = s.stream ++ s.sentUntil (s.resume m) := by
  rw [sentUntil_resume]
  unfold stream resume
  rw [Array.toList_append, sentOf_append]

/-- What one execution sends out. -/
theorem tells_execute (s : Session σ) (c : Context) :
    (s.execute host c).2.stream = s.stream ++ s.sentUntil (s.execute host c).2 ∧
      Tells c.id (fun _ => True) (s.sentUntil (s.execute host c).2)
        (s.execute host c).1.terminal := by
  obtain ⟨m, hm, hsession, hterminal, -⟩ := execute_eq host s c
  have hmirrors : Mirrors c.id (fun _ => True) m := by
    rw [hm]
    exact mirrors_contextRun host c.compiled rfl rfl
  rw [hsession, hterminal]
  refine ⟨stream_resume s m, ?_⟩
  rw [sentUntil_resume]
  exact hmirrors.tells

/-- What contexts send out that are run one after another. -/
theorem tells_runMany (contexts : List Context) : ∀ s : Session σ,
    (s.runMany host contexts).2.stream =
        s.stream ++ (s.sentByEach host contexts).flatten ∧
      List.Forall₂ (fun report events => Tells report.id (fun _ => True) events report.terminal)
        (s.runMany host contexts).1 (s.sentByEach host contexts) ∧
      (s.runMany host contexts).1.map (·.id) = contexts.map (·.id) := by
  induction contexts with
  | nil =>
    intro s
    refine ⟨?_, .nil, rfl⟩
    simp [runMany, sentByEach]
  | cons c rest ih =>
    intro s
    obtain ⟨hstream, htells⟩ := tells_execute host s c
    obtain ⟨-, -, -, -, hid⟩ := execute_eq host s c
    obtain ⟨hrest, hreports, hids⟩ := ih (s.execute host c).2
    refine ⟨?_, .cons ?_ hreports, ?_⟩
    · calc (s.runMany host (c :: rest)).2.stream
          = ((s.execute host c).2.runMany host rest).2.stream := rfl
        _ = (s.execute host c).2.stream ++ ((s.execute host c).2.sentByEach host rest).flatten :=
          hrest
        _ = s.stream ++ (s.sentByEach host (c :: rest)).flatten := by
          rw [hstream, sentByEach, List.flatten_cons, List.append_assoc]
    · show Tells (s.execute host c).1.id _ _ _
      rw [hid]
      exact htells
    · show (s.execute host c).1.id :: ((s.execute host c).2.runMany host rest).1.map (·.id) = _
      rw [hid, hids]
      rfl

/-- What the invocation of a task sends out. -/
theorem tells_invokeTask (s : Session σ) (name : String) (args : List Value) :
    (s.invokeTask host name args).2.stream =
        s.stream ++ s.sentUntil (s.invokeTask host name args).2 ∧
      (∀ e ∈ s.sentUntil (s.invokeTask host name args).2,
        e.sender? = some ("task:" ++ name)) ∧
      ∀ report, (s.invokeTask host name args).1 = .ok report →
        report.id = "task:" ++ name ∧
          Tells report.id (· = []) (s.sentUntil (s.invokeTask host name args).2)
            report.terminal := by
  have hD : (mirroring σ ("task:" ++ name) (· = [])).StateLaws := laws_mirroring
  have hstart : Mirrors ("task:" ++ name) (· = []) (s.machine ("task:" ++ name) {}) :=
    ⟨rfl, fun e he => (by cases he), fun start h => h⟩
  have hsafe := evaluatorSafe (lawful_ofStates hD) (liberal_ofStates hD) host.backend host.fuel
  have hrun := hsafe.invoke _ name args
    (fun v _ => Value.allClosures_of_forall (fun _ _ => trivial) v) hstart
  have hmirrors := hrun.leads.after
  unfold invokeTask
  dsimp only
  split
  · next v m heq =>
    rw [heq] at hmirrors
    have hsent : s.sentUntil (s.resume m) = sentOf m.journal.toList := sentUntil_resume s m
    rw [hsent]
    refine ⟨hsent ▸ stream_resume s m, hmirrors.tells.sender, fun report hreport => ?_⟩
    cases hreport
    exact ⟨rfl, hmirrors.tells⟩
  · next e m heq =>
    rw [heq] at hmirrors
    refine ⟨stream_resume s m, ?_, fun report hreport => by cases hreport⟩
    rw [sentUntil_resume]
    exact hmirrors.tells.sender
  · next m heq =>
    rw [heq] at hmirrors
    have hsent : s.sentUntil (s.resume m) = sentOf m.journal.toList := sentUntil_resume s m
    rw [hsent]
    refine ⟨hsent ▸ stream_resume s m, hmirrors.tells.sender, fun report hreport => ?_⟩
    cases hreport
    exact ⟨rfl, hmirrors.tells⟩

/-- **Streamed output and reports agree.** In every session: what an execution of a context sends
out comes from that context, and its replay from any lines shows the context's terminal; the
contexts of a batch and the scripts of a note send theirs one after another, in order; and what the
invocation of a task sends out shows, from no lines, the terminal of its report. -/
theorem stream_agrees_with_reports (s : Session σ) :
    (∀ c : Context,
      (s.execute host c).2.stream = s.stream ++ s.sentUntil (s.execute host c).2 ∧
      Tells c.id (fun _ => True) (s.sentUntil (s.execute host c).2)
        (s.execute host c).1.terminal) ∧
    (∀ contexts : List Context,
      (s.runMany host contexts).2.stream = s.stream ++ (s.sentByEach host contexts).flatten ∧
      List.Forall₂ (fun report events => Tells report.id (fun _ => True) events report.terminal)
        (s.runMany host contexts).1 (s.sentByEach host contexts) ∧
      (s.runMany host contexts).1.map (·.id) = contexts.map (·.id)) ∧
    (∀ text : List Char, ∀ contexts, contexts = (Page.scriptBlocks text).map .ofBlock →
      (s.runNote host text).2.stream = s.stream ++ (s.sentByEach host contexts).flatten ∧
      ∀ reports, (s.runNote host text).1 = .ok reports →
        List.Forall₂ (fun report events => Tells report.id (fun _ => True) events report.terminal)
          reports (s.sentByEach host contexts) ∧
        reports.map (·.id) = contexts.map (·.id)) ∧
    (∀ (name : String) (args : List Value),
      (s.invokeTask host name args).2.stream =
        s.stream ++ s.sentUntil (s.invokeTask host name args).2 ∧
      (∀ e ∈ s.sentUntil (s.invokeTask host name args).2,
        e.sender? = some ("task:" ++ name)) ∧
      ∀ report, (s.invokeTask host name args).1 = .ok report →
        report.id = "task:" ++ name ∧
          Tells report.id (· = []) (s.sentUntil (s.invokeTask host name args).2)
            report.terminal) := by
  refine ⟨tells_execute host s, fun contexts => tells_runMany host contexts s, ?_,
    tells_invokeTask host s⟩
  intro text contexts hcontexts
  unfold runNote
  cases hblocks : Page.scriptBlocks text with
  | nil =>
    rw [hblocks] at hcontexts
    subst hcontexts
    refine ⟨?_, fun reports hreports => by cases hreports⟩
    simp [sentByEach]
  | cons b rest =>
    rw [hblocks] at hcontexts
    subst hcontexts
    obtain ⟨hstream, hreports, hids⟩ := tells_runMany host ((b :: rest).map .ofBlock) s
    refine ⟨hstream, fun reports h => ?_⟩
    cases h
    exact ⟨hreports, hids⟩

/-- A store that carries out every call, behind a view that cannot be refreshed. -/
def staleHost : Host Unit where
  backend := .willing
  hook := some ⟨20, fun _ => (.error ⟨["listing failed"]⟩, ())⟩
  fuel := 40

/-- A session in which nothing has happened yet. -/
def fresh : Session Unit :=
  { store := () }

/-- A note with a script that clears its output between two lines and one that does not compile. -/
def noteWithClear : List Char :=
  (":::automation\nlet f = () => clear()\nprint(\"a\")\nf()\nprint(\"b\")\n:::\n\n" ++
    ":::automation\nlet f = =>\n:::").toList

theorem stream_agrees_with_reports_noteWithClear :
    ∃ reports, (fresh.runNote staleHost noteWithClear).1 = .ok reports ∧
      reports.map (·.terminal.lines.size) = [4, 1] ∧
      List.Forall₂ (fun report events => Tells report.id (fun _ => True) events report.terminal)
        reports
        (fresh.sentByEach staleHost ((Page.scriptBlocks noteWithClear).map .ofBlock)) := by
  have hruns : (match (fresh.runNote staleHost noteWithClear).1 with
      | .ok reports => reports.map (·.terminal.lines.size)
      | .error _ => []) = [4, 1] := by
    decide +kernel
  split at hruns
  · next reports heq =>
    have htext := (stream_agrees_with_reports staleHost fresh).2.2.1 noteWithClear _ rfl
    exact ⟨reports, heq, hruns, (htext.2 reports heq).1⟩
  · cases hruns

end Session

end ScriptedNotes
