import ScriptedNotes.Proofs.Run.Lookalike
import ScriptedNotes.Workspace.Store

/-!
The listing of a workspace. It is for the eye alone: no call of a script goes by it
(`cannotTell_backend`), and listing a workspace anew, whether or not the disk lets it, leaves
everything else as it was (`sameButListing_refresh`).
-/

namespace ScriptedNotes

open Run (Change)

/-- A new listing is the only thing that comes of a refresh. -/
lemma Workspace.refresh_eq (w : Workspace) (d : Disk) :
    w.refresh d = ((Workspace.list w.settings w.root d).1.map fun tree => { w with tree },
      (Workspace.list w.settings w.root d).2) := by
  have hbind : w.refresh d =
      (ExceptT.bindCont (fun tree => (pure { w with tree } : DiskWork DiskError Workspace))
        (Workspace.list w.settings w.root d).1 : StateM Disk _)
        (Workspace.list w.settings w.root d).2 := rfl
  rw [hbind]
  cases (Workspace.list w.settings w.root d).1 <;> rfl

namespace Site

/-- Two sites are the same but for what is listed of their workspaces. -/
def SameButListing (x y : Site) : Prop :=
  y = { x with workspace := { x.workspace with tree := y.workspace.tree } }

lemma SameButListing.congr {x x' y y' : Site} (h : x.SameButListing y) (hx : x.SameButListing x')
    (hy : y.SameButListing y') : x'.SameButListing y' := by
  unfold SameButListing at *
  rw [hy, h, hx]

/-- Work that does not go by the listing comes out the same. -/
lemma work_listing {ε α : Type} (causes : ε → List String) {job : Workspace → DiskWork ε α}
    (hjob : ∀ w tree, job { w with tree } = job w) {x y : Site} (h : x.SameButListing y) :
    (work causes job y).1 = (work causes job x).1 ∧
      (work causes job x).2.SameButListing (work causes job y).2 := by
  have hwork : work causes job y = ((work causes job x).1,
      { (work causes job x).2 with
        workspace := { x.workspace with tree := y.workspace.tree } }) := by
    rw [h]
    unfold work
    rw [hjob]
    rfl
  rw [hwork]
  exact ⟨rfl, rfl⟩

lemma perform_listing (w : Workspace) (tree : FileTree) (c : Change) :
    perform { w with tree } c = perform w c := by
  cases c <;> rfl

/-- **No script sees what is listed.** -/
theorem cannotTell_backend : backend.CannotTell SameButListing where
  change c _ _ h := work_listing _ (fun w tree => perform_listing w tree c) h
  read _ _ _ h := work_listing _ (fun _ _ => rfl) h

/-- **Listing a workspace anew changes nothing but the listing.** -/
theorem sameButListing_refresh (s : Site) : s.SameButListing s.refresh.2 := by
  have hdisk : (Workspace.list s.workspace.settings s.workspace.root s.disk).2 = s.disk := rfl
  unfold Site.refresh
  rw [Workspace.refresh_eq, hdisk]
  cases (Workspace.list s.workspace.settings s.workspace.root s.disk).1 <;> rfl

end Site

end ScriptedNotes
