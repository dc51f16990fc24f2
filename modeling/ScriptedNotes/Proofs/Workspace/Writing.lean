import ScriptedNotes.Proofs.Disk.Footprint
import ScriptedNotes.Proofs.Workspace.Confinement
import ScriptedNotes.Proofs.Workspace.FileMap

/-!
What the replacement of a file does to the other files of a disk. The file itself and the draft
beside it are all that is touched (`writeFile_touches`): no other file changes or comes to be, and a
draft is never left behind. What stood at the place of the draft is lost, though, for the draft is
written over it (`writeFile_takes_draft`). A file that could not be replaced is as it was, unless
the way to the root of the workspace climbs out of a folder that is missing: that folder is made
then, and it may be what the path names.
-/

namespace ScriptedNotes

open ScriptedNotes.Path

namespace Path

variable {p a : Path} {n : ℕ} {front more : List Part}

/-- The path of a folder on the way to another path has the first of its parts. -/
lemma parts_of_mem_ancestors (h : a ∈ ancestors.go n p) : a.parts <+: p.parts ∧ a.parts ≠ [] := by
  induction n generalizing p with
  | zero => cases h
  | succ n ih =>
    unfold ancestors.go at h
    cases hparent : p.parent? with
    | none =>
      rw [hparent] at h
      cases h
    | some parent =>
      rw [hparent] at h
      obtain ⟨part, hparts⟩ := parts_of_parent? hparent
      rcases List.mem_cons.1 h with rfl | h
      · exact ⟨List.prefix_rfl, by simp [hparts]⟩
      · obtain ⟨hinitial, hne⟩ := ih h
        exact ⟨hinitial.trans (hparts ▸ List.prefix_append _ _), hne⟩

/-- Behind its first part a path that does not climb has names. -/
lemma names_of_not_up (hup : Part.up ∉ p.parts) (h : p.parts = front ++ more)
    (hfront : front ≠ []) :
    ∃ names : List String, more = names.map .name := by
  have htail : more ⊆ innerParts p.pieces := by
    obtain ⟨first, rest, rfl⟩ := List.exists_cons_of_ne_nil hfront
    intro part hpart
    have hrest : part ∈ rest ++ more := List.mem_append_right _ hpart
    cases habsolute : p.isAbsolute with
    | true =>
      rw [parts_of_absolute habsolute, List.cons_append] at h
      exact (List.cons.inj h).2 ▸ hrest
    | false =>
      rcases parts_of_relative habsolute with hparts | hparts <;> rw [hparts, List.cons_append] at h
      · exact h ▸ List.mem_cons_of_mem _ hrest
      · exact (List.cons.inj h).2 ▸ hrest
  refine ⟨more.filterMap Part.name?, ?_⟩
  rw [List.map_filterMap]
  conv_lhs => rw [← List.filterMap_some (l := more)]
  refine List.filterMap_congr fun part hpart => ?_
  cases part with
  | name s => rfl
  | root => exact (root_not_mem_innerParts _ (htail hpart)).elim
  | here => exact (here_not_mem_innerParts _ (htail hpart)).elim
  | up => exact (hup (h ▸ List.mem_append_right _ hpart)).elim

/-- More names lead further in. -/
lemma place_ne_of_names {names : List String} (h : p.parts = a.parts ++ names.map .name)
    (hnames : names ≠ []) (current : Position) : a.place current ≠ p.place current := by
  have hplace : p.place current = a.place current ++ names := by
    unfold place
    rw [h, List.foldl_append, foldl_onto_names]
  rw [hplace]
  exact fun heq => hnames (List.append_right_eq_self.1 heq.symm)

end Path

namespace Disk

variable {d : Disk} {root a : Path} {folder : Position} {entries : List (String × Node)}

/-- On the way to a folder that is found there are folders. -/
lemma folderAt_of_prefix (hroot : d.locate root = .ok (folder, .folder entries))
    (h : a.parts <+: root.parts) (hne : a.parts ≠ []) : d.FolderAt (a.place d.current) := by
  have henters := enters_of_locate hroot
  obtain ⟨more, hmore⟩ := h
  have hway : ∃ front, innerParts root.pieces = front ++ more ∧
      a.place d.current = front.foldl Position.onto (d.start root) := by
    unfold place start
    cases habsolute : root.isAbsolute with
    | true =>
      obtain ⟨first, front, hparts⟩ := List.exists_cons_of_ne_nil hne
      rw [parts_of_absolute habsolute, hparts, List.cons_append] at hmore
      obtain ⟨rfl, hinner⟩ := List.cons.inj hmore
      exact ⟨front, hinner.symm, by rw [hparts]; rfl⟩
    | false =>
      rcases parts_of_relative habsolute with hparts | hparts
      · exact ⟨a.parts, (hparts ▸ hmore).symm, rfl⟩
      · obtain ⟨first, front, hfront⟩ := List.exists_cons_of_ne_nil hne
        rw [hparts, hfront, List.cons_append] at hmore
        obtain ⟨rfl, hinner⟩ := List.cons.inj hmore
        exact ⟨front, hinner.symm, by rw [hfront]; rfl⟩
  obtain ⟨front, hinner, hplace⟩ := hway
  rw [hinner] at henters
  rw [hplace]
  exact henters.of_append.stop

end Disk

namespace Workspace

open Run (Outcome)

variable {w : Workspace} {path content : String} {target : Path} {d d' : Disk}

/-! ### Where the draft and the folders are -/

/-- A draft has a place of its own. -/
lemma place_draft_ne (h : w.resolve path = .ok target) (current : Position) :
    (DiskWork.draft target).place current ≠ target.place current := by
  obtain ⟨hdraft, hleads, front, last, hnames, hshort⟩ := draft_resolve h
  obtain ⟨hin, rfl⟩ := resolve_ok h
  have hplace : ∀ {p : Path}, p.LeadsIn →
      (w.root.join p).place current = w.root.place current ++ p.names := by
    intro p hp
    rw [place_eq_normal, place_eq_normal, normal_join hp, List.foldl_append, foldl_onto_names]
  rw [hdraft, hplace hleads, hplace hin, hnames]
  intro hsame
  have hends := List.append_cancel_left hsame
  rcases hshort with hshort | hshort <;> rw [hshort] at hends
  · simp at hends
  · have hlength := congrArg String.length (List.singleton_inj.1 (List.append_cancel_left hends))
    have hlong : ".tmp".length = 4 := by decide
    rw [String.length_append] at hlength
    omega

/-- The path itself does not name a folder that is made on the way to it, unless the way climbs out
of a folder that is missing. -/
lemma not_onTheWay (h : w.resolve path = .ok target)
    (hroot : d.hasFolder w.root = true ∨ Part.up ∉ w.root.parts)
    (hfree : d.tree.view (target.place d.current) = none) :
    ¬ DiskWork.OnTheWay target d.current (target.place d.current) := by
  rintro ⟨parent, hparent, a, ha, hplace⟩
  obtain ⟨part, hparts⟩ := parts_of_parent? hparent
  obtain ⟨⟨rest, hrest⟩, hne⟩ := parts_of_mem_ancestors ha
  have hmore : target.parts = a.parts ++ (rest ++ [part]) := by
    rw [hparts, ← hrest, List.append_assoc]
  have hnone : rest ++ [part] ≠ [] := by simp
  have hnot : ∀ names : List String, rest ++ [part] ≠ names.map .name := by
    rintro names hnames
    rw [hnames] at hmore
    refine place_ne_of_names hmore ?_ d.current hplace
    rintro rfl
    exact hnone hnames
  rcases hroot with hfolder | hup
  · obtain ⟨folder, entries, hlocate⟩ : ∃ folder entries,
        d.locate w.root = .ok (folder, .folder entries) := by
      unfold Disk.hasFolder at hfolder
      split at hfolder
      · next folder entries hlocate => exact ⟨folder, entries, hlocate⟩
      · cases hfolder
    rw [parts_resolve hlocate h] at hmore
    rcases List.append_eq_append_iff.1 hmore with ⟨more, -, hnames⟩ | ⟨more, hroot, -⟩
    · obtain ⟨_, names, -, -, hnames⟩ := List.map_eq_append_iff.1 hnames
      exact hnot names hnames.symm
    · -- the folder is on the way to the root, so it is there
      have hthere := Disk.folderAt_of_prefix hlocate ⟨more, hroot.symm⟩ hne
      rw [hplace, Disk.folderAt_iff_view, hfree] at hthere
      cases hthere
  · obtain ⟨hin, rfl⟩ := resolve_ok h
    have hclimbs : Part.up ∉ (w.root.join ⟨path⟩).parts := by
      refine up_not_mem_join hin.not_isAbsolute hup ?_
      rw [← up_mem_parts_iff]
      exact (leadsIn_iff_parts.1 hin).2
    obtain ⟨names, hnames⟩ := names_of_not_up hclimbs hmore hne
    exact hnot names hnames

/-! ### What is touched -/

/-- What the replacement of a file at one position, by way of a draft at another one, may do to what
else is on a disk. -/
structure Touched (file draft : Position) (d d' : Disk) : Prop where
  kept : ∀ q c, q ≠ file → q ≠ draft →
    d.tree.at? q = some (.file c) → d'.tree.at? q = some (.file c)
  nothingNew : ∀ q c, q ≠ file → d'.tree.at? q = some (.file c) → d.tree.at? q = some (.file c)
  foldersKept : ∀ q, d.FolderAt q → d'.FolderAt q

/-- First folders are added, and then the file is replaced or not. -/
lemma touched_of_replacement {here : Position → Prop} {d₁ : Disk} {result : Except Fault Unit}
    (hgrown : d.Grown here d₁) (h : DiskWork.Replacement target content d₁ result d') :
    Touched (target.place d.current) ((DiskWork.draft target).place d.current) d d' := by
  rw [← hgrown.current]
  refine ⟨fun q c hfile hdraft hq => ?_, fun q c hfile hq => ?_, fun q hq => ?_⟩
  · rw [← hgrown.file_iff, ← Disk.view_eq_file_iff] at hq
    rw [← Disk.view_eq_file_iff, h.elsewhere hdraft hfile, hq]
  · rw [← hgrown.file_iff]
    by_cases hdraft : q = (DiskWork.draft target).place d₁.current
    · subst hdraft
      rcases h.at_draft with rfl | ⟨-, hgone⟩
      · exact hq
      · rw [hgone] at hq
        cases hq
    · rw [← Disk.view_eq_file_iff] at hq ⊢
      rw [← h.elsewhere hdraft hfile, hq]
  · exact h.folderAt (hgrown.folderAt hq)

/-- How a file is written: folders on the way to it are made, and it is replaced if none of them is
missing then. -/
lemma writeFile_run (h : w.resolve path = .ok target) {result : Except WorkspaceError Outcome}
    (hrun : w.writeFile path content d = (result, d')) :
    ∃ d₁ written, d.Grown (DiskWork.OnTheWay target d.current) d₁ ∧
      DiskWork.Replacement target content d₁ written d' ∧
      (written = .ok () ∧ result = .ok .success ∨
        ∃ fault e, written = .error fault ∧ result = .error e) := by
  have hadapt : ∀ {ε ε' α : Type} (f : ε → ε') (work : DiskWork ε α) (d : Disk),
      (ExceptT.adapt f work : DiskWork ε' α) d = ((work d).1.mapError f, (work d).2) :=
    fun _ _ _ => rfl
  have hgrown := DiskWork.grown_makeParent target d
  unfold writeFile at hrun
  rw [within_eq h] at hrun
  cases hparent : DiskWork.makeParent target d with
  | mk made d₁ =>
    rw [hparent] at hgrown
    have hmade : makeParent target d = (made.mapError .disk, d₁) := by
      unfold makeParent
      rw [hadapt, hparent]
    cases made with
    | error e =>
      rw [DiskWork.bind_of_error hmade] at hrun
      cases hrun
      exact ⟨_, _, hgrown, .refused e.fault, .inr ⟨_, _, rfl, rfl⟩⟩
    | ok a =>
      rw [DiskWork.bind_of_ok hmade] at hrun
      cases hwrite : DiskWork.replaceText target content d₁ with
      | mk written d₂ =>
        have hreplaced := DiskWork.replaceText_cases (place_draft_ne h d₁.current) hwrite
        have htoward : toward (.replaceFile target) (DiskWork.replaceText target content) d₁ =
            ((written.mapError (DiskError.mk (.replaceFile target))).mapError .disk, d₂) := by
          unfold toward DiskWork.toward
          rw [hadapt, hadapt, hwrite]
        cases written with
        | error fault =>
          rw [DiskWork.bind_of_error htoward] at hrun
          cases hrun
          exact ⟨_, _, hgrown, hreplaced, .inr ⟨_, _, rfl, rfl⟩⟩
        | ok a =>
          rw [DiskWork.bind_of_ok htoward] at hrun
          cases hrun
          exact ⟨_, _, hgrown, hreplaced, .inl ⟨rfl, rfl⟩⟩

/-- **The replacement of a file touches the file and the draft beside it.** On every disk, whatever
comes of it: each other file keeps its content, no file comes to be but the one that is written, so
that no draft is left behind, and no folder is lost. If it succeeds, the file has the new content
and is read back; if it fails, what stands at the path is as it was, provided that the root of the
workspace is there or its path does not climb. -/
theorem writeFile_touches {w : Workspace} {path content : String} {target : Path} {d d' : Disk}
    {result : Except WorkspaceError Outcome} (h : w.resolve path = .ok target)
    (hrun : w.writeFile path content d = (result, d')) :
    Touched (target.place d.current) ((DiskWork.draft target).place d.current) d d' ∧
      (∀ outcome, result = .ok outcome → outcome = .success ∧
        d'.tree.at? (target.place d.current) = some (.file (.text content)) ∧
        w.read path d' = (.ok content, d')) ∧
      (∀ e, result = .error e → d.hasFolder w.root = true ∨ Part.up ∉ w.root.parts →
        d'.tree.view (target.place d.current) = d.tree.view (target.place d.current)) := by
  obtain ⟨d₁, written, hgrown, hreplaced, hresult⟩ := writeFile_run h hrun
  refine ⟨touched_of_replacement hgrown hreplaced, fun outcome houtcome => ?_,
    fun e he hroot => ?_⟩
  · rcases hresult with ⟨rfl, rfl⟩ | ⟨fault, e, -, rfl⟩
    · cases houtcome
      cases hreplaced with
      | done but free plain gone found =>
        refine ⟨rfl, ?_, read_of_text h (Disk.readText_of_locate found)⟩
        rw [← hgrown.current]
        exact Disk.at?_of_locate found
    · cases houtcome
  · have hkept : d'.tree.view (target.place d.current) = d₁.tree.view (target.place d.current) := by
      rcases hresult with ⟨rfl, rfl⟩ | ⟨fault, e, rfl, -⟩
      · cases he
      · rw [← hgrown.current]
        exact hreplaced.failed (place_draft_ne h d₁.current)
    rw [hkept]
    rcases hgrown.view (target.place d.current) with hsame | ⟨hway, hfree, -⟩
    · exact hsame
    · exact (not_onTheWay h hroot hfree hway).elim

section

/-- A workspace in the folder `/notes`. -/
private def binder : Workspace where
  root := ⟨"/notes"⟩
  settings := {}
  tree := ⟨none, none⟩

/-- A workspace in the folder `/notes` as well, by way of the folder `old` in it. -/
private def climbingBinder : Workspace where
  root := ⟨"/notes/old/.."⟩
  settings := {}
  tree := ⟨none, none⟩

/-- A disk with a file that has the name of a draft, and an empty folder. -/
private def strayDraft : Disk where
  tree := .folder [("notes", .folder [("a.txt.tmp", .file (.text "x")), ("b", .folder [])])]

/-- A file is written, and a folder is not written over. -/
theorem writeFile_touches_strayDraft :
    binder.writeFile "c.txt" "y" strayDraft = (.ok .success, ⟨.folder [("notes", .folder
        [("a.txt.tmp", .file (.text "x")), ("b", .folder []),
          ("c.txt", .file (.text "y"))])], []⟩) ∧
      binder.read "c.txt" (binder.writeFile "c.txt" "y" strayDraft).2 =
        (.ok "y", (binder.writeFile "c.txt" "y" strayDraft).2) ∧
      (∃ e, (binder.writeFile "b" "y" strayDraft).1 = .error e) ∧
      (binder.writeFile "b" "y" strayDraft).2.tree.view ["notes", "b"] = some none := by
  have hwritten := (@writeFile_touches binder "c.txt" "y" _ strayDraft _ _ rfl rfl).2.1 _ rfl
  have hfailed := (@writeFile_touches binder "b" "y" _ strayDraft _ _ rfl rfl).2.2 _ rfl (.inl rfl)
  exact ⟨rfl, hwritten.2.2, ⟨_, rfl⟩, hfailed⟩

/-- What has the name of the draft is lost, and a folder that is made on the way may be the one that
the path names. -/
theorem writeFile_takes_draft :
    (¬ ∀ (w : Workspace) (path content : String) (target : Path) (d : Disk),
      w.resolve path = .ok target → ∀ q c, q ≠ target.place d.current →
        d.tree.at? q = some (.file c) →
          (w.writeFile path content d).2.tree.at? q = some (.file c)) ∧
    ¬ ∀ (w : Workspace) (path content : String) (target : Path) (d : Disk) (e : WorkspaceError),
      w.resolve path = .ok target → (w.writeFile path content d).1 = .error e →
        (w.writeFile path content d).2.tree.view (target.place d.current) =
          d.tree.view (target.place d.current) := by
  constructor
  · intro h
    have hlost := h binder "a.txt" "y" ⟨"/notes/a.txt"⟩ strayDraft rfl ["notes", "a.txt.tmp"]
      (.text "x") (by decide) rfl
    cases hlost
  · intro h
    have hmade := h climbingBinder "old" "y" ⟨"/notes/old/../old"⟩ strayDraft _ rfl rfl
    cases hmade

end

end Workspace

end ScriptedNotes
