import ScriptedNotes.Proofs.Page.Scripts
import ScriptedNotes.Proofs.Session.ContextRun

/-!
Notes in a session. The scripts that the page of a note shows are those that run with the note, and
the page has them where they stand in the note (`page_shows_what_runs`).
-/

namespace ScriptedNotes

open Text Page

/-- The ids of the first scripts of a note. -/
def scriptIds (count : Nat) : List String :=
  (List.range count).map fun n => "automation-" ++ toString n

/-- What the page of a note shows, what its text says and what runs are the same scripts. -/
structure ShowsWhatRuns (text : List Char) : Prop where
  shown : (renderNote text).scripts = scriptBlocks text
  /-- The scripts are numbered in their order. -/
  ids : (scriptBlocks text).map ScriptBlock.id = scriptIds (scriptBlocks text).length
  /-- Those that run are those that are shown, and there is a report of each. -/
  run : ∀ {σ : Type} (host : Host σ) (s : Session σ),
    s.runNote host text =
      if (renderNote text).scripts = [] then (.error .noScripts, s)
      else
        (.ok (s.runMany host ((renderNote text).scripts.map .ofBlock)).1,
          (s.runMany host ((renderNote text).scripts.map .ofBlock)).2)
  reported : ∀ {σ : Type} (host : Host σ) (s : Session σ),
    (s.runMany host ((renderNote text).scripts.map .ofBlock)).1.map Report.id =
      (renderNote text).scripts.map ScriptBlock.id
  /-- The scripts with their marks are cut out of the note, each one's source is trimmed and
  compiled, and what replaces them stands in their places. -/
  replaced : ∃ S : Scripted, S.text = text ∧ scriptBlocks text = S.blocks 0 ∧
    ∀ {β : Type} (f : β → ScriptBlock → List Char × β) (state : β),
      (replies f state (scriptBlocks text)).1.length = S.tail.length ∧
      replaceScripts f state text =
        (S.replaced (replies f state (scriptBlocks text)).1, scriptBlocks text,
          (replies f state (scriptBlocks text)).2)
  /-- When placeholders replace them, no script is left. -/
  settled : ∀ (html : ScriptBlock → List Char) (v : Vault),
    scriptBlocks (replaceScripts (fun v b => v.stash (html b)) v text).1 = []

variable {σ : Type} (host : Host σ) (s : Session σ)

lemma map_id_blocks (S : Scripted) :
    (S.blocks 0).map ScriptBlock.id = scriptIds (S.blocks 0).length := by
  have hnumbers : (S.blocks 0).map ScriptBlock.number = List.range (S.blocks 0).length := by
    rw [Scripted.blocks, List.map_map, List.length_map, List.length_zipIdx,
      List.range_eq_range', ← List.zipIdx_map_snd]
    rfl
  rw [scriptIds, ← hnumbers, List.map_map]
  rfl

namespace Session

lemma map_id_runMany (contexts : List Context) :
    (s.runMany host contexts).1.map Report.id = contexts.map Context.id := by
  induction contexts generalizing s with
  | nil => rfl
  | cons c rest ih =>
    obtain ⟨-, -, -, -, hid⟩ := execute_eq host s c
    rw [runMany_cons, List.map_cons, ih]
    exact congrArg (· :: rest.map Context.id) hid

lemma runNote_eq (text : List Char) :
    s.runNote host text =
      if scriptBlocks text = [] then (.error .noScripts, s)
      else
        (.ok (s.runMany host ((scriptBlocks text).map .ofBlock)).1,
          (s.runMany host ((scriptBlocks text).map .ofBlock)).2) := by
  unfold runNote
  split
  · next hnil => rw [if_pos hnil]
  · next hne => rw [if_neg hne]

end Session

/-- **The page of a note shows what runs**, for every note. -/
theorem page_shows_what_runs (text : List Char) : ShowsWhatRuns text := by
  obtain ⟨S, hS⟩ := exists_scripted text
  have hshown : (renderNote text).scripts = scriptBlocks text := by
    have hpage : (renderNote text).scripts =
        (replaceScripts (fun (v : Vault) b => v.stash (scriptHtml b)) ⟨[]⟩ text).2.1 := rfl
    rw [hpage, hS.replaceScripts_eq]
  refine ⟨hshown, ?_, ?_, ?_, ⟨S, hS.text_eq, hS.scriptBlocks_eq, fun f state => ?_⟩,
    hS.scriptBlocks_stash⟩
  · rw [hS.scriptBlocks_eq]
    exact map_id_blocks S
  · intro σ host s
    rw [hshown]
    exact s.runNote_eq host text
  · intro σ host s
    rw [Session.map_id_runMany, List.map_map]
    rfl
  · refine ⟨?_, hS.replaceScripts_eq f state⟩
    rw [length_replies, hS.scriptBlocks_eq]
    simp [Scripted.blocks]

end ScriptedNotes
