import ScriptedNotes.Proofs.Disk.Spared
import ScriptedNotes.Proofs.Workspace.Targets

/-!
What the calls of a workspace do to its disk. As long as the targets of a request are strictly below
the root of the workspace, nothing outside of the root is seen to change, and the root remains a
folder (`spares_handle`). A path of nothing but a dot is accepted and leads to the root itself, so
the root is emptied when such a folder is to be deleted (`deleteDirectory_dot_empties_root`).
-/

namespace ScriptedNotes.Workspace

open Run (Outcome Change)
open ScriptedNotes.Path

section

variable {α : Type} {w : Workspace} {path : String} {target : Path} {d : Disk} {folder : Position}

/-- Work within the workspace is work at the target. -/
lemma spares_within {work : Path → WorkspaceWork α} (h : w.resolve path = .ok target)
    (hwork : (work target).Spares folder d) : (w.within path work).Spares folder d := by
  unfold within
  rw [h]
  exact hwork

/-- What work is done for makes no difference to the disk. -/
lemma spares_toward {work : DiskWork Fault α} (h : work.Spares folder d) (purpose : Purpose) :
    (toward purpose work).Spares folder d :=
  h

/-- A move between two places inside is not seen outside. -/
lemma spares_moveAt {source goal : Path} (hsource : source.Inside d.current folder)
    (hgoal : goal.Inside d.current folder) :
    (moveAt path source goal).Spares folder d := by
  have hboth : ∀ p ∈ [source, goal], p.Inside d.current folder :=
    List.forall_mem_cons.2 ⟨hsource, List.forall_mem_singleton.2 hgoal⟩
  unfold moveAt
  refine .ask ?_
  split
  · exact DiskWork.spares_pure _
  · refine .ask ?_
    split
    · exact DiskWork.spares_pure _
    · refine .bind ?_ fun _ _ _ => DiskWork.spares_pure _
      exact spares_toward (DiskWork.spares_change Disk.sameBut_rename hboth) _

/-- The draft of a file is what the path leads to with a longer name, which may have been missing
before. -/
lemma draft_resolve (h : w.resolve path = .ok target) :
    DiskWork.draft target = w.root.join ⟨path ++ ".tmp"⟩ ∧ (Path.mk (path ++ ".tmp")).LeadsIn ∧
      ∃ front last, (Path.mk (path ++ ".tmp")).names = front ++ [last ++ ".tmp"] ∧
        ((Path.mk path).names = front ∨ (Path.mk path).names = front ++ [last]) := by
  obtain ⟨hin, rfl⟩ := resolve_ok h
  have hslash : '/' ∉ ".tmp".toList := by decide
  obtain ⟨hleads, hnames⟩ := hin.append hslash (by decide)
  refine ⟨?_, hleads, hnames⟩
  unfold DiskWork.draft join
  rw [hin.not_isAbsolute, hleads.not_isAbsolute]
  split
  · next hfalse => cases hfalse
  · split <;> simp only [String.append_assoc]

variable {entries : List (String × Node)} (hroot : d.locate w.root = .ok (folder, .folder entries))
include hroot

/-- A path strictly below the root has its place inside of it. -/
lemma inside_of_strictlyBelow {p : Path} (h : p.StrictlyBelow w.root) :
    p.Inside d.current folder := by
  obtain ⟨names, hnames, hplace⟩ := h.place d.current
  rw [← Disk.locate_eq hroot] at hplace
  exact ⟨names, hnames, hplace⟩

lemma parts_resolve (h : w.resolve path = .ok target) :
    target.parts = w.root.parts ++ (Path.mk path).names.map .name := by
  obtain ⟨hin, rfl⟩ := resolve_ok h
  exact hin.parts_join (DiskWork.text_ne_of_locate hroot)

/-- A draft is inside, whether or not the path has a name. -/
lemma inside_draft (h : w.resolve path = .ok target) :
    (DiskWork.draft target).Inside d.current folder := by
  obtain ⟨hdraft, hleads, front, last, hnames, -⟩ := draft_resolve h
  have hparts := hleads.parts_join (DiskWork.text_ne_of_locate hroot)
  rw [hdraft]
  exact DiskWork.inside_of_parts hroot hparts (by simp [hnames])

/-- A change at a path with names is not seen outside. -/
lemma spares_perform {c : Change} (h : w.resolve (Request.path w (.change c)) = .ok target)
    (hnames : (Path.mk (Request.path w (.change c))).names ≠ []) :
    (Site.perform w c).Spares folder d := by
  have hparts := parts_resolve hroot h
  have hinside := DiskWork.inside_of_parts hroot hparts hnames
  have hone : ∀ p ∈ [target], p.Inside d.current folder := List.forall_mem_singleton.2 hinside
  have hparent := DiskWork.spares_makeParent hroot hparts hnames
  cases c with
  | createFile path content =>
    refine spares_within h ?_
    refine .bind (hparent.adapt _) fun _ d' hd' => .bind ?_ fun _ _ _ => DiskWork.spares_pure _
    exact spares_toward (DiskWork.spares_change Disk.sameBut_writeText (hd' ▸ hone)) _
  | writeFile path content =>
    refine spares_within h ?_
    refine .bind (hparent.adapt _) fun _ d' hd' => .bind ?_ fun _ _ _ => DiskWork.spares_pure _
    exact spares_toward (DiskWork.spares_replaceText (hd' ▸ hinside) (hd' ▸ inside_draft hroot h)) _
  | deleteFile path =>
    refine spares_within h ?_
    refine .ask ?_
    split
    · refine .bind ?_ fun _ _ _ => DiskWork.spares_pure _
      exact spares_toward (DiskWork.spares_change Disk.sameBut_removeFile hone) _
    · exact DiskWork.spares_pure _
    · exact DiskWork.spares_pure _
  | createDirectory path =>
    refine spares_within h ?_
    refine .ask ?_
    split
    · exact DiskWork.spares_pure _
    · exact DiskWork.spares_pure _
    · refine .bind ?_ fun _ _ _ => DiskWork.spares_pure _
      exact spares_toward (DiskWork.spares_makeChain hroot _ hparts) _
  | deleteDirectory path =>
    refine spares_within h ?_
    refine .ask ?_
    split
    · refine .bind ?_ fun _ _ _ => DiskWork.spares_pure _
      exact spares_toward (DiskWork.spares_removeTree hinside) _
    · exact DiskWork.spares_pure _
    · exact DiskWork.spares_pure _

/-- **A request is not seen outside of the root** when its targets are strictly below it. -/
theorem spares_handle {r : Request} {ts : List Path} (h : w.targets r = .ok ts)
    (hbelow : ∀ t ∈ ts, t.StrictlyBelow w.root) : (r.handle w).Spares folder d := by
  obtain ⟨target, hresolve, hts⟩ := targets_ok h
  rcases hts with ⟨c, rfl, rfl⟩ | ⟨path, newName, isFile, rfl, -, rfl⟩
  · refine spares_perform hroot hresolve ?_
    exact (strictlyBelow_iff_of_normal (normal_resolve hresolve)).1
      (hbelow target List.mem_cons_self)
  · have hmove := rename_factors path newName isFile w
    rw [h] at hmove
    rw [hmove]
    exact spares_moveAt (inside_of_strictlyBelow hroot (hbelow _ List.mem_cons_self))
      (inside_of_strictlyBelow hroot (hbelow _ (List.mem_cons_of_mem _ List.mem_cons_self)))

end

/-- **Requests are confined when their paths have names.** A request is refused and does nothing, or
it is the same work at its targets in every workspace. The targets are strictly below the root of
the workspace just when the path has names in it, and for a rename more names than the new one
climbs over; the default extension that is put behind the new name of a file may have no slash
there, for it is not looked at again. If the targets are strictly below the root, nothing outside of
it is seen to change on any disk where it is a folder, and it remains one. -/
theorem request_confined_iff (r : Request) :
    ∃ work : List Path → WorkspaceWork Outcome, ∀ w : Workspace,
      (∃ e, w.targets r = .error e ∧ r.handle w = throw e) ∨
        ∃ ts, w.targets r = .ok ts ∧ r.handle w = work ts ∧
          ((∀ path newName, r = .rename path newName true →
              '/' ∉ w.settings.defaultExtension.toList) →
            ((∀ t ∈ ts, t.StrictlyBelow w.root) ↔
              r.climb w < (Path.mk (r.path w)).names.length)) ∧
          ((∀ t ∈ ts, t.StrictlyBelow w.root) →
            ∀ (d : Disk) folder entries, d.locate w.root = .ok (folder, .folder entries) →
              d.SameOutside folder (r.handle w d).2) := by
  obtain ⟨work, hwork⟩ := handle_factors r
  refine ⟨work, fun w => ?_⟩
  have hhandle := hwork w
  cases htargets : w.targets r with
  | error e =>
    rw [htargets] at hhandle
    exact .inl ⟨e, rfl, hhandle⟩
  | ok ts =>
    rw [htargets] at hhandle
    refine .inr ⟨ts, rfl, hhandle, strictlyBelow_targets_iff htargets, ?_⟩
    exact fun hbelow d folder entries hroot => spares_handle hroot htargets hbelow

section

/-- A workspace in the folder `/notes`. -/
private def notes : Workspace where
  root := ⟨"/notes"⟩
  settings := {}
  tree := ⟨none, none⟩

/-- A disk with one note. -/
private def oneNote : Disk where
  tree := .folder [("notes", .folder [("a.mne", .file (.text "x"))])]

/-- A file gets a new name in the folder where it is. -/
theorem request_confined_iff_rename :
    (∃ ts, notes.targets (.rename "a.mne" "b" true) = .ok ts ∧
      ∀ t ∈ ts, t.StrictlyBelow notes.root) ∧
    oneNote.SameOutside ["notes"]
      (Request.handle notes (.rename "a.mne" "b" true) oneNote).2 := by
  obtain ⟨work, hwork⟩ := request_confined_iff (.rename "a.mne" "b" true)
  rcases hwork notes with ⟨e, he, -⟩ | ⟨ts, hts, -, hiff, houtside⟩
  · cases he
  · have hbelow : ∀ t ∈ ts, t.StrictlyBelow notes.root :=
      (hiff fun _ _ _ => by decide).2 (by decide)
    have hroot : oneNote.locate notes.root =
        .ok (["notes"], .folder [("a.mne", .file (.text "x"))]) := by
      rfl
    exact ⟨⟨ts, hts, hbelow⟩, houtside hbelow oneNote _ _ hroot⟩

/-- The folder of the workspace itself is emptied when a dot is to be deleted, and only then the
disk refuses to take it away. -/
theorem deleteDirectory_dot_empties_root :
    notes.targets (.change (.deleteDirectory ".")) = .ok [⟨"/notes/."⟩] ∧
      ¬ (Path.mk "/notes/.").StrictlyBelow notes.root ∧
      Request.handle notes (.change (.deleteDirectory ".")) oneNote =
        (.error (.disk ⟨.deleteFolder ⟨"/notes/."⟩, .invalid⟩),
          { tree := .folder [("notes", .folder [])] }) := by
  refine ⟨by rfl, ?_, by rfl⟩
  have hnormal : (Path.mk "/notes/.").normal =
      notes.root.normal ++ ([] : List String).map .name := by
    decide
  rw [strictlyBelow_iff_of_normal hnormal]
  exact fun hne => hne rfl

end

end ScriptedNotes.Workspace
