import ScriptedNotes.Proofs.Disk.Finding
import ScriptedNotes.Proofs.Disk.Spared

/-!
What is found after a move, and after works of several calls. What stood at one path stands at
another one and is found there (`moved_of_rename`), unless it is a folder that was itself on the
way, which takes a path that climbs. A file that was replaced by way of its draft is read back
(`readText_of_replaceText`), and a folder that was made is there (`hasFolder_of_makeFolders`).
-/

namespace ScriptedNotes

open ScriptedNotes.Path

namespace Disk

variable {d d' : Disk} {p old new : Path} {position q folder : Position}
  {pieces : List (List Char)} {s : String} {node : Node}

/-! ### Moving -/

/-- What moves, from where and to where. Two paths to one place move nothing. -/
lemma rename_cases (h : d.rename old new = .ok d') :
    ∃ oldFolder oldName newFolder newName node,
      d.Names old oldFolder oldName node ∧ d.Names new newFolder newName node ∧
      d.tree.at? (oldFolder ++ [oldName]) = some node ∧
      (oldFolder ++ [oldName] = newFolder ++ [newName] ∧ d' = d ∨
        ¬ oldFolder ++ [oldName] <+: newFolder ++ [newName] ∧
        ¬ newFolder ++ [newName] <+: oldFolder ++ [oldName] ∧
        blocked? node (d.tree.at? (newFolder ++ [newName])) = none ∧
        d' = (d.erase oldFolder oldName).put newFolder newName node) := by
  obtain ⟨⟨oldFolder, oldEnding⟩, hold, h⟩ := ok_of_bind h
  obtain ⟨⟨newFolder, newEnding⟩, hnew, h⟩ := ok_of_bind h
  cases oldEnding with
  | name oldName oldSlashed =>
    cases newEnding with
    | name newName newSlashed =>
      obtain ⟨entry, hentry, h⟩ := ok_of_bind h
      obtain ⟨holdName, hfound⟩ := entry?_ok hentry
      cases entry with
      | none => cases h
      | some node =>
        obtain ⟨replaced, hreplaced, h⟩ := ok_of_bind h
        obtain ⟨hnewName, rfl⟩ := entry?_ok hreplaced
        dsimp only at h
        split_ifs at h with hslash hsame hinto honto
        all_goals
          simp only [Bool.and_eq_true, Bool.not_eq_true', Bool.or_eq_true, not_and, not_or,
            Bool.not_eq_true] at hslash
          have hslashes : (oldSlashed = false ∨ node.isFolder = true) ∧
              (newSlashed = false ∨ node.isFolder = true) := by
            cases hfolder : node.isFolder with
            | true => exact ⟨.inr rfl, .inr rfl⟩
            | false => exact (hslash hfolder).imp .inl .inl
          refine ⟨oldFolder, oldName, newFolder, newName, node, ⟨_, hold, holdName, hslashes.1⟩,
            ⟨_, hnew, hnewName, hslashes.2⟩, hfound.symm, ?_⟩
        · cases h
          exact .inl ⟨hsame, rfl⟩
        · rw [List.isPrefixOf_iff_prefix] at hinto honto
          split at h
          · cases h
          · next hblocked =>
            cases h
            exact .inr ⟨hinto, honto, hblocked, rfl⟩
    | dot | dots | root => cases h
  | dot | dots | root => cases h

/-- Pieces without dots lead further in, so only the folders around the place that they lead to
matter. -/
lemma follow_inward (hup : ['.', '.'] ∉ pieces) (h : d.follow position pieces = .ok q)
    (hkept : ∀ r, r <+: q → d.FolderAt r → d'.FolderAt r) :
    position <+: q ∧ d'.follow position pieces = .ok q := by
  induction pieces generalizing position with
  | nil =>
    cases h
    exact ⟨List.prefix_rfl, rfl⟩
  | cons piece rest ih =>
    have hrest : ['.', '.'] ∉ rest := fun hmem => hup (List.mem_cons_of_mem piece hmem)
    rw [follow] at h ⊢
    split at h
    · cases h
    · cases h
    · next entries hfolder =>
      have honward : ∀ {next}, position <+: next → d.follow next rest = .ok q →
          position <+: q ∧ d'.FolderAt position ∧ d'.follow next rest = .ok q := by
        intro next hnext hfollow
        obtain ⟨hbelow, hfollow'⟩ := ih hrest hfollow
        exact ⟨hnext.trans hbelow, hkept _ (hnext.trans hbelow) ⟨entries, hfolder⟩, hfollow'⟩
      dsimp only at h
      split_ifs at h with hidle hdots hlong
      · obtain ⟨hbelow, ⟨entries', hfolder'⟩, hfollow⟩ := honward List.prefix_rfl h
        rw [hfolder']
        exact ⟨hbelow, (if_pos hidle).trans hfollow⟩
      · exact (hup (hdots ▸ List.mem_cons_self)).elim
      · obtain ⟨hbelow, ⟨entries', hfolder'⟩, hfollow⟩ := honward (List.prefix_append _ _) h
        rw [hfolder']
        exact ⟨hbelow, (if_neg hidle).trans ((if_neg hdots).trans ((if_neg hlong).trans hfollow))⟩

/-- A path that does not climb names the same entry while the folders around that entry are kept. -/
lemma Names.of_kept_around (h : d.Names p folder s node) (hcurrent : d'.current = d.current)
    (hup : ['.', '.'] ∉ p.pieces) (hkept : ∀ r, r <+: folder → d.FolderAt r → d'.FolderAt r) :
    d'.Names p folder s node := by
  obtain ⟨slashed, htarget, hrest⟩ := h
  refine ⟨slashed, ?_, hrest⟩
  rw [target_eq_name_iff] at htarget ⊢
  obtain ⟨hmalformed, before, last, hending, hfollow, hlast⟩ := htarget
  obtain ⟨idle, hpieces, -⟩ := pieces_of_splitEnding hending
  have hdots : ['.', '.'] ∉ before ++ [['.']] := by
    intro hmem
    refine hup (hpieces ▸ List.mem_append_left _ ?_)
    simpa using hmem
  have hstart : d'.start p = d.start p := by
    unfold start
    rw [hcurrent]
  refine ⟨hmalformed, before, last, hending, ?_, hlast⟩
  rw [hstart]
  exact (follow_inward hdots hfollow hkept).2

/-- What stood at one path stands at another one. -/
structure Moved (d d' : Disk) (old new : Path) (node : Node) : Prop where
  before : d.locate old = .ok (old.place d.current, node)
  after : d'.tree.at? (new.place d.current) = some node
  /-- A folder may have been on the way to where it comes, if that way climbs. -/
  found : node.isFolder = false ∨ ['.', '.'] ∉ new.pieces →
    d'.locate new = .ok (new.place d.current, node)
  /-- Two paths to one place move nothing. -/
  same : old.place d.current = new.place d.current → d' = d ∧ d.has new = true
  gone : old.place d.current ≠ new.place d.current → d'.has old = false
  missing : old.place d.current ≠ new.place d.current → node.isFolder = false →
    d'.locate old = .error .notFound

section

variable {oldFolder newFolder : Position} {oldName newName : String}
  (hold : d.Names old oldFolder oldName node) (hnew : d.Names new newFolder newName node)
  (hnode : d.tree.at? (oldFolder ++ [oldName]) = some node)
include hold hnew hnode

lemma moved_of_same (hsame : oldFolder ++ [oldName] = newFolder ++ [newName]) :
    Moved d d old new node := by
  have hplace : old.place d.current = new.place d.current :=
    hold.place.symm.trans (hsame.trans hnew.place)
  have hfound := hnew.locate (hsame ▸ hnode)
  refine ⟨hold.locate hnode, hplace ▸ hold.place ▸ hnode, fun _ => hfound, fun _ => ⟨rfl, ?_⟩,
    fun hne => (hne hplace).elim, fun hne => (hne hplace).elim⟩
  unfold has
  rw [hfound]
  rfl

/-- Between places of which none is inside of the other, what is moved leaves the one and comes to
the other. -/
lemma moved_apart (hinto : ¬ oldFolder ++ [oldName] <+: newFolder ++ [newName])
    (honto : ¬ newFolder ++ [newName] <+: oldFolder ++ [oldName])
    (hblocked : blocked? node (d.tree.at? (newFolder ++ [newName])) = none) :
    Moved d ((d.erase oldFolder oldName).put newFolder newName node) old new node := by
  have hbut := (SameBut.erase d oldFolder oldName).trans (.put _ newFolder newName node)
  have haround : ∀ r, r <+: newFolder → d.FolderAt r →
      ((d.erase oldFolder oldName).put newFolder newName node).FolderAt r := by
    intro r hr hfolder
    rw [folderAt_iff_view, hbut.view r, ← folderAt_iff_view]
    · exact hfolder
    · refine List.forall_mem_cons.2 ⟨fun hbelow => hinto ?_, ?_⟩
      · exact hbelow.trans (hr.trans (List.prefix_append _ _))
      · refine List.forall_mem_singleton.2 fun hbelow => ?_
        have hle := (hbelow.trans hr).length_le
        rw [List.length_append, List.length_singleton] at hle
        omega
  have hafter : ((d.erase oldFolder oldName).put newFolder newName node).tree.at?
      (newFolder ++ [newName]) = some node := by
    refine at?_put ?_ newName node
    rw [folderAt_iff_view, (SameBut.erase d oldFolder oldName).view newFolder, ← folderAt_iff_view]
    · exact hnew.folderAt
    · refine List.forall_mem_singleton.2 fun hbelow => ?_
      exact hinto (hbelow.trans (List.prefix_append _ _))
  have hgone : ((d.erase oldFolder oldName).put newFolder newName node).tree.at?
      (oldFolder ++ [oldName]) = none := by
    rw [← view_eq_none_iff, (SameBut.put _ newFolder newName node).view _, view_eq_none_iff]
    · exact at?_erase d oldFolder oldName
    · exact List.forall_mem_singleton.2 honto
  have hkept : node.isFolder = false →
      FoldersKept d ((d.erase oldFolder oldName).put newFolder newName node) := by
    intro hfile
    cases node with
    | folder entries => cases hfile
    | file c =>
      refine hbut.foldersKept (List.forall_mem_cons.2 ⟨not_folderAt_of_file hnode, ?_⟩)
      refine List.forall_mem_singleton.2 ?_
      rintro ⟨entries, hentries⟩
      rw [hentries] at hblocked
      cases hblocked
  refine ⟨hold.locate hnode, hnew.place ▸ hafter, ?_, fun hsame => ?_, fun _ => ?_,
    fun _ hfile => ?_⟩
  · rintro (hfile | hup)
    · exact (hnew.of_kept (hkept hfile)).locate hafter
    · exact (hnew.of_kept_around hbut.current hup haround).locate hafter
  · rw [← hold.place, ← hnew.place] at hsame
    exact (hinto (hsame ▸ List.prefix_rfl)).elim
  · rw [hold.place] at hgone
    exact has_eq_false hgone
  · exact (hold.of_kept (hkept hfile)).missing hgone

end

/-- **A move takes what stands at one path to another one**, where it is found unless it was itself
on the way. -/
theorem moved_of_rename (h : d.rename old new = .ok d') : ∃ node, Moved d d' old new node := by
  obtain ⟨oldFolder, oldName, newFolder, newName, node, hold, hnew, hnode, hcase⟩ := rename_cases h
  rcases hcase with ⟨hsame, rfl⟩ | ⟨hinto, honto, hblocked, rfl⟩
  · exact ⟨node, moved_of_same hold hnew hnode hsame⟩
  · exact ⟨node, moved_apart hold hnew hnode hinto honto hblocked⟩

end Disk

/-! ### Works of several calls -/

namespace DiskWork

variable {ε ε' α β : Type} {d d' : Disk} {p : Path}

/-- Work that succeeds, one after the other. -/
lemma ok_of_bind {x : DiskWork ε α} {f : α → DiskWork ε β} {b : β}
    (h : (x >>= f) d = (.ok b, d')) : ∃ a d'', x d = (.ok a, d'') ∧ f a d'' = (.ok b, d') := by
  have hbind : (x >>= f) d = ExceptT.bindCont f (x d).1 (x d).2 := rfl
  rw [hbind] at h
  cases hx : x d with
  | mk result d'' =>
    rw [hx] at h
    cases result with
    | ok a => exact ⟨a, d'', rfl, h⟩
    | error e => cases h

lemma ok_of_change {f : Disk → Except Fault Disk} {a : Unit} (h : change f d = (.ok a, d')) :
    f d = .ok d' := by
  unfold change at h
  split at h
  · next hf =>
    cases h
    exact hf
  · cases h

/-- What is done for a purpose is done. -/
lemma ok_of_adapt {work : DiskWork ε α} {f : ε → ε'} {a : α}
    (h : (ExceptT.adapt f work : DiskWork ε' α) d = (.ok a, d')) : work d = (.ok a, d') := by
  have hadapt : (ExceptT.adapt f work : DiskWork ε' α) d =
      ((work d).1.mapError f, (work d).2) := rfl
  rw [hadapt] at h
  cases hwork : work d with
  | mk result d'' =>
    rw [hwork] at h
    cases result with
    | ok b =>
      cases h
      rfl
    | error e => cases h

lemma hasFolder_of_ensureFolder {a : Unit} (h : ensureFolder p d = (.ok a, d')) :
    d'.hasFolder p = true := by
  unfold ensureFolder at h
  split at h
  · next hmake =>
    cases h
    unfold Disk.hasFolder
    rw [Disk.locate_makeFolder hmake]
  · split_ifs at h with hfolder
    · cases h
      exact hfolder
    · cases h
  · cases h

/-- The first of the folders that are made is there in the end. -/
lemma hasFolder_of_makeChain {parents : List Path} {a : Unit}
    (h : makeChain (p :: parents) d = (.ok a, d')) : d'.hasFolder p = true := by
  unfold makeChain at h
  cases hfirst : ensureFolder p d with
  | mk result d'' =>
    cases result with
    | ok b =>
      rw [tryCatch_of_ok hfirst] at h
      cases h
      exact hasFolder_of_ensureFolder hfirst
    | error fault =>
      rw [tryCatch_of_error hfirst] at h
      cases fault with
      | notFound =>
        obtain ⟨b, d₁, -, hlast⟩ := ok_of_bind h
        exact hasFolder_of_ensureFolder hlast
      | _ => cases h

/-- **A folder that was made is there**, if its path is not that of the root. -/
theorem hasFolder_of_makeFolders {a : Unit} (hparent : p.parent? ≠ none)
    (h : makeFolders p d = (.ok a, d')) : d'.hasFolder p = true := by
  obtain ⟨parent, hparent⟩ := Option.ne_none_iff_exists'.1 hparent
  unfold makeFolders Path.ancestors Path.ancestors.go at h
  rw [hparent] at h
  exact hasFolder_of_makeChain h

/-- A folder that was taken away with all that is in it is gone. -/
lemma has_of_removeTree {a : Unit} (h : removeTree p d = (.ok a, d')) : d'.has p = false := by
  obtain ⟨b, d₁, hclear, hremove⟩ := ok_of_bind h
  have hcurrent : d'.current = d₁.current :=
    (Disk.sameBut_removeFolder (ok_of_change hremove)).current
  have hgone := Disk.at?_removeFolder (ok_of_change hremove)
  rw [← hcurrent] at hgone
  exact Disk.has_eq_false hgone

/-- **A text that replaced another one is read**: its draft took the place of the file. -/
theorem readText_of_replaceText {content : String} {a : Unit}
    (h : replaceText p content d = (.ok a, d')) : d'.readText p = .ok content := by
  unfold replaceText at h
  cases hrun : (do
      change (·.writeText (draft p) content)
      change (·.rename (draft p) p) : DiskWork Fault Unit) d with
  | mk result d₁ =>
    cases result with
    | error fault =>
      rw [tryCatch_of_error hrun] at h
      obtain ⟨b, d₂, -, hthrow⟩ := ok_of_bind h
      cases hthrow
    | ok b =>
      rw [tryCatch_of_ok hrun] at h
      cases h
      obtain ⟨c, d₂, hwrite, hmove⟩ := ok_of_bind hrun
      have hdraft := (Disk.locate_writeText (ok_of_change hwrite)).2
      obtain ⟨node, hmoved⟩ := Disk.moved_of_rename (ok_of_change hmove)
      have hnode : node = .file (.text content) := by
        have hbefore := hmoved.before
        rw [hdraft] at hbefore
        exact (Prod.mk.inj (Except.ok.inj hbefore)).2.symm
      subst hnode
      exact Disk.readText_of_locate (hmoved.found (.inl rfl))

end DiskWork

end ScriptedNotes
