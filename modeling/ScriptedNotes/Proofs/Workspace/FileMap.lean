import ScriptedNotes.Proofs.Disk.Moving
import ScriptedNotes.Proofs.Workspace.Refusal

/-!
A workspace as a map from paths to texts. What was written is read back by the same path, what was
deleted is missing, what was made is there and what was renamed has moved; and a call that is turned
down for what is on the disk leaves the disk as it is (`fileMap`). This holds on every disk and for
all spellings of a path, but a folder may have been on the way to the place that it is moved to, and
at the root of the disk nothing is made (`fileMap_exceptions`).
-/

namespace ScriptedNotes

open ScriptedNotes.Path

namespace Path

variable {p next : Path} {newName : String}

/-- Without two dots in it, a name behind a path does not climb either. -/
lemma up_not_mem_join (h : next.isAbsolute = false) (hp : Part.up ∉ p.parts)
    (hnext : ['.', '.'] ∉ next.pieces) : Part.up ∉ (p.join next).parts := by
  by_cases htext : p.text = ""
  · rwa [join_empty htext, up_mem_parts_iff]
  · rw [parts_join h htext, List.mem_append, up_mem_innerParts_iff]
    exact not_or.2 ⟨hp, hnext⟩

lemma isAbsolute_of_slash (h : '/' ∉ newName.toList) : (Path.mk newName).isAbsolute = false := by
  refine not_isAbsolute_iff.2 fun hhead => h ?_
  exact List.mem_of_mem_head? hhead

lemma up_not_mem_withFileName (hslash : '/' ∉ newName.toList) (hdots : newName ≠ "..")
    (hp : Part.up ∉ p.parts) : Part.up ∉ (p.withFileName newName).parts := by
  have hpieces : (Path.mk newName).pieces = [newName.toList] := List.splitOn_eq_singleton hslash
  have hname : ['.', '.'] ∉ (Path.mk newName).pieces := by
    rw [hpieces, List.mem_singleton]
    exact fun heq => hdots (String.toList_inj.1 heq.symm)
  have hrelative := isAbsolute_of_slash hslash
  unfold withFileName
  cases hold : p.fileName? with
  | none => exact up_not_mem_join hrelative hp hname
  | some name =>
    obtain ⟨q, hparent, hparts⟩ := parts_parent hold
    rw [hparent]
    refine up_not_mem_join hrelative (fun hq => hp ?_) hname
    rw [hparts]
    exact List.mem_append_left _ hq

/-- Two dots for a new name are the last piece of the path. -/
lemma getLast?_pieces_withFileName (hslash : '/' ∉ newName.toList) :
    (p.withFileName newName).pieces.getLast? = some newName.toList := by
  have hpieces : (Path.mk newName).pieces = [newName.toList] := List.splitOn_eq_singleton hslash
  have hjoin : ∀ q : Path, (q.join ⟨newName⟩).pieces.getLast? = some newName.toList := by
    intro q
    by_cases htext : q.text = ""
    · rw [join_empty htext, hpieces]
      rfl
    · obtain ⟨base, -, -, hbase⟩ := pieces_join (isAbsolute_of_slash hslash) htext
      rw [hbase, hpieces, List.getLast?_concat]
  unfold withFileName
  split <;> exact hjoin _

end Path

lemma Disk.Names.getLast?_ne_dots {d : Disk} {p : Path} {folder : Position} {s : String}
    {node : Node} (h : d.Names p folder s node) : p.pieces.getLast? ≠ some ['.', '.'] := by
  obtain ⟨slashed, htarget, -⟩ := h
  obtain ⟨-, before, last, hending, -, -, hdots, -⟩ := Disk.target_eq_name_iff.1 htarget
  obtain ⟨idle, hpieces, hidle, -⟩ := Disk.pieces_of_splitEnding hending
  rw [hpieces]
  rcases List.eq_nil_or_concat idle with rfl | ⟨front, piece, rfl⟩
  · simpa using hdots
  · obtain rfl : piece = [] := hidle piece (by simp)
    rw [List.concat_eq_append, ← List.cons_append, ← List.append_assoc, List.getLast?_concat]
    decide

namespace Workspace

open Run (Outcome Change)

section

variable {α β : Type} {w : Workspace} {path : String} {target : Path} {d d' : Disk}

lemma ok_of_within {work : Path → WorkspaceWork α} {a : α}
    (h : w.within path work d = (.ok a, d')) :
    ∃ target, w.resolve path = .ok target ∧ work target d = (.ok a, d') := by
  unfold within at h
  cases hresolve : w.resolve path with
  | ok target =>
    rw [hresolve] at h
    exact ⟨target, rfl, h⟩
  | error e =>
    rw [hresolve] at h
    cases h

lemma within_eq (h : w.resolve path = .ok target) (work : Path → WorkspaceWork α) :
    w.within path work = work target := by
  unfold within
  rw [h]

/-- What is done for a purpose is done. -/
lemma ok_of_toward {purpose : Purpose} {work : DiskWork Fault α} {a : α}
    (h : toward purpose work d = (.ok a, d')) : work d = (.ok a, d') :=
  DiskWork.ok_of_adapt (DiskWork.ok_of_adapt h)

/-- What stands at a path is asked for, and nothing is done by it. -/
lemma nodeAt?_bind (target : Path) (f : Option Node → WorkspaceWork β) (d : Disk) :
    (nodeAt? target >>= f) d = f ((d.locate target).toOption.map (·.2)) d :=
  rfl

lemma isSome_node : ((d.locate target).toOption.map (·.2)).isSome = d.has target :=
  Option.isSome_map

lemma node_of_has (h : d.has target = false) : (d.locate target).toOption.map (·.2) = none := by
  rwa [← isSome_node, Option.isSome_eq_false_iff, Option.isNone_iff_eq_none] at h

lemma node_of_hasFolder (h : d.hasFolder target = true) :
    ∃ entries, (d.locate target).toOption.map (·.2) = some (.folder entries) := by
  unfold Disk.hasFolder at h
  split at h
  · next entries hlocate =>
    rw [hlocate]
    exact ⟨entries, rfl⟩
  · cases h

/-! ### Reading -/

lemma read_eq (h : w.resolve path = .ok target) (d : Disk) :
    w.read path d = (match d.readText target with
      | .ok content => .ok content
      | .error .notFound => .ok ""
      | .error fault => .error (.disk ⟨.readFile target, fault⟩), d) := by
  unfold read
  rw [within_eq h]
  have htoward : ∀ (purpose : Purpose) (work : DiskWork Fault String),
      toward purpose work d =
        (((work d).1.mapError (DiskError.mk purpose)).mapError .disk, (work d).2) :=
    fun _ _ => rfl
  rw [htoward]
  cases htext : d.readText target with
  | ok content =>
    have hlook : DiskWork.look (·.readText target) d = (.ok content, d) := Prod.ext htext rfl
    rw [DiskWork.tryCatch_of_ok hlook]
    rfl
  | error fault =>
    have hlook : DiskWork.look (·.readText target) d = (.error fault, d) := Prod.ext htext rfl
    rw [DiskWork.tryCatch_of_error hlook]
    cases fault <;> rfl

lemma read_of_text {content : String} (h : w.resolve path = .ok target)
    (htext : d.readText target = .ok content) : w.read path d = (.ok content, d) := by
  rw [read_eq h, htext]

lemma read_of_missing (h : w.resolve path = .ok target)
    (hmissing : d.locate target = .error .notFound) : w.read path d = (.ok "", d) := by
  have htext : d.readText target = .error .notFound := by
    unfold Disk.readText
    rw [hmissing]
    rfl
  rw [read_eq h, htext]

/-- Reading changes nothing. -/
lemma snd_read (w : Workspace) (path : String) (d : Disk) : (w.read path d).2 = d := by
  cases hresolve : w.resolve path with
  | ok target => rw [read_eq hresolve]
  | error e =>
    unfold read within
    rw [hresolve]
    rfl

/-! ### Files -/

lemma read_of_createFile {content : String}
    (h : w.createFile path content d = (.ok .success, d')) :
    w.read (w.withDefaultExtension path) d' = (.ok content, d') := by
  obtain ⟨target, hresolve, h⟩ := ok_of_within h
  obtain ⟨_, d₁, -, h⟩ := DiskWork.ok_of_bind h
  obtain ⟨_, d₂, hwrite, h⟩ := DiskWork.ok_of_bind h
  cases h
  have hwritten := Disk.locate_writeText (DiskWork.ok_of_change (ok_of_toward hwrite))
  exact read_of_text hresolve (Disk.readText_of_locate hwritten.2)

lemma read_of_writeFile {content : String}
    (h : w.writeFile path content d = (.ok .success, d')) :
    w.read path d' = (.ok content, d') := by
  obtain ⟨target, hresolve, h⟩ := ok_of_within h
  obtain ⟨_, d₁, -, h⟩ := DiskWork.ok_of_bind h
  obtain ⟨_, d₂, hreplace, h⟩ := DiskWork.ok_of_bind h
  cases h
  exact read_of_text hresolve (DiskWork.readText_of_replaceText (ok_of_toward hreplace))

lemma missing_of_deleteFile (h : w.deleteFile path d = (.ok .success, d')) :
    w.read path d' = (.ok "", d') ∧
      w.deleteFile path d' = (.ok (.rejected "File not found"), d') := by
  obtain ⟨target, hresolve, h⟩ := ok_of_within h
  rw [nodeAt?_bind] at h
  generalize (d.locate target).toOption.map (·.2) = found at h
  rcases found with _ | _ | _
  · cases h
  · obtain ⟨_, d₁, hremove, h⟩ := DiskWork.ok_of_bind h
    cases h
    have hmissing := Disk.locate_removeFile (DiskWork.ok_of_change (ok_of_toward hremove))
    refine ⟨read_of_missing hresolve hmissing, ?_⟩
    unfold deleteFile
    rw [within_eq hresolve, nodeAt?_bind, hmissing]
    rfl
  · cases h

/-! ### Folders -/

/-- The root of the disk is found if it is a folder, however its path is written. -/
lemma hasFolder_root (hparts : target.parts = [.root]) (hroot : d.tree.isFolder = true)
    (hmalformed : Disk.malformed? target = none) : d.hasFolder target = true := by
  have habsolute : target.isAbsolute = true := by
    by_contra hrelative
    rw [Bool.not_eq_true] at hrelative
    have hmem : Part.root ∈ target.parts := hparts ▸ List.mem_cons_self
    rcases parts_of_relative hrelative with h | h <;> rw [h] at hmem
    · exact root_not_mem_innerParts _ hmem
    · exact root_not_mem_innerParts _ (List.mem_of_ne_of_mem (by decide) hmem)
  have hinner : innerParts target.pieces = [] := by
    rw [parts_of_absolute habsolute] at hparts
    exact (List.cons.inj hparts).2
  obtain ⟨entries, htree⟩ : ∃ entries, d.tree = .folder entries := by
    cases htree : d.tree with
    | folder entries => exact ⟨entries, rfl⟩
    | file c =>
      rw [htree] at hroot
      cases hroot
  have hstart : d.start target = [] := if_pos habsolute
  have hfolder : d.FolderAt [] := ⟨entries, congrArg some htree⟩
  obtain ⟨q, hfollow⟩ : ∃ q, d.follow (d.start target) target.pieces = .ok q := by
    refine Disk.follow_of_enters ?_
    rw [hinner, hstart]
    exact hfolder
  obtain rfl : q = [] := by
    rw [Disk.follow_eq hfollow, hinner, hstart]
    rfl
  unfold Disk.hasFolder Disk.locate
  rw [hmalformed, hfollow]
  simp only [bind, Except.bind, Node.at?, htree]

lemma text_ne_of_resolve (h : w.resolve path = .ok target) : target.text ≠ "" := by
  have hpath : path ≠ "" := by
    rintro rfl
    cases h
  obtain ⟨hin, rfl⟩ := resolve_ok h
  unfold join
  rw [hin.not_isAbsolute]
  intro htext
  split_ifs at htext <;> simp_all

/-- The root of the disk is a target only of a workspace there. -/
lemma parts_root_of_target (h : w.resolve path = .ok target) (hparts : target.parts = [.root]) :
    w.root.parts = [.root] := by
  obtain ⟨hin, rfl⟩ := resolve_ok h
  by_cases htext : w.root.text = ""
  · rw [join_empty htext] at hparts
    have hroot := hin .root (hparts ▸ List.mem_cons_self)
    simp at hroot
  · rw [hin.parts_join htext] at hparts
    cases hnames : (Path.mk path).names with
    | nil => simpa [hnames] using hparts
    | cons name rest =>
      rw [hnames] at hparts
      have hmem : Part.name name ∈ [Part.root] :=
        hparts ▸ List.mem_append_right _ List.mem_cons_self
      cases List.mem_singleton.1 hmem

/-- Nothing is made for a path without a parent that the disk does not take. -/
lemma createDirectory_of_malformed {fault : Fault} (hresolve : w.resolve path = .ok target)
    (hparent : target.parent? = none) (hmalformed : Disk.malformed? target = some fault) :
    w.createDirectory path d = (.ok .success, d) := by
  have hlocate : d.locate target = .error fault := by
    unfold Disk.locate
    rw [hmalformed]
  have hmake : DiskWork.makeFolders target = pure () := by
    unfold DiskWork.makeFolders ancestors ancestors.go
    rw [hparent]
    rfl
  unfold createDirectory
  rw [within_eq hresolve, nodeAt?_bind, hlocate]
  dsimp only [Except.toOption, Option.map_none]
  rw [hmake]
  rfl

lemma alreadyThere_of_createDirectory
    (hroot : w.root.parts = [.root] →
      d.tree.isFolder = true ∧ Disk.malformed? (w.root.join ⟨path⟩) = none)
    (h : w.createDirectory path d = (.ok .success, d')) :
    w.createDirectory path d' = (.ok .alreadyThere, d') := by
  obtain ⟨target, hresolve, h⟩ := ok_of_within h
  rw [nodeAt?_bind] at h
  cases hnode : (d.locate target).toOption.map (·.2) with
  | some node =>
    rw [hnode] at h
    cases node <;> cases h
  | none =>
    rw [hnode] at h
    obtain ⟨_, d₁, hmake, h⟩ := DiskWork.ok_of_bind h
    cases h
    have hfolder : d'.hasFolder target = true := by
      refine DiskWork.hasFolder_of_makeFolders (fun hparent => ?_) (ok_of_toward hmake)
      -- only the root has no parent, and it would have been found before
      have hparts := parts_of_parent?_eq_none hparent (text_ne_of_resolve hresolve)
      obtain ⟨htree, hmalformed⟩ := hroot (parts_root_of_target hresolve hparts)
      rw [← (resolve_ok hresolve).2] at hmalformed
      obtain ⟨entries, hfound⟩ := node_of_hasFolder (hasFolder_root hparts htree hmalformed)
      rw [hnode] at hfound
      cases hfound
    obtain ⟨entries, hnode⟩ := node_of_hasFolder hfolder
    unfold createDirectory
    rw [within_eq hresolve, nodeAt?_bind, hnode]
    rfl

lemma missing_of_deleteDirectory (h : w.deleteDirectory path d = (.ok .success, d')) :
    w.deleteDirectory path d' = (.ok (.rejected "Directory not found"), d') := by
  obtain ⟨target, hresolve, h⟩ := ok_of_within h
  rw [nodeAt?_bind] at h
  generalize (d.locate target).toOption.map (·.2) = found at h
  rcases found with _ | _ | _
  · cases h
  · cases h
  · obtain ⟨_, d₁, hremove, h⟩ := DiskWork.ok_of_bind h
    cases h
    have hmissing := DiskWork.has_of_removeTree (ok_of_toward hremove)
    unfold deleteDirectory
    rw [within_eq hresolve, nodeAt?_bind, node_of_has hmissing]
    rfl

/-! ### Renaming -/

section

variable {newName : String} {isFile : Bool}

/-- A rename that succeeds is a move on the disk to where nothing was found. -/
lemma ok_of_rename (h : w.rename path newName isFile d = (.ok .success, d')) :
    ∃ source, w.resolve path = .ok source ∧
      w.targets (.rename path newName isFile) =
        .ok [source, source.withFileName (w.givenName newName isFile)] ∧
      '/' ∉ newName.toList ∧
      d.has (source.withFileName (w.givenName newName isFile)) = false ∧
      d.rename source (source.withFileName (w.givenName newName isFile)) = .ok d' := by
  have hmove := rename_factors path newName isFile w
  change w.rename path newName isFile = _ at hmove
  rw [hmove] at h
  cases htargets : w.targets (.rename path newName isFile) with
  | error e =>
    rw [htargets] at h
    cases h
  | ok ts =>
    rw [htargets] at h
    obtain ⟨source, hresolve, hcases⟩ := targets_ok htargets
    rcases hcases with ⟨c, hc, -⟩ | ⟨path', newName', isFile', hrename, hslash, rfl⟩
    · cases hc
    · cases hrename
      refine ⟨source, hresolve, rfl, hslash, ?_⟩
      change moveAt path source (source.withFileName (w.givenName newName isFile)) d = _ at h
      generalize source.withFileName (w.givenName newName isFile) = goal at h ⊢
      unfold moveAt at h
      rw [nodeAt?_bind] at h
      split_ifs at h with hsource
      · cases h
      · rw [nodeAt?_bind, isSome_node] at h
        split_ifs at h with hgoal
        · cases h
        · obtain ⟨_, d₁, hmoved, h⟩ := DiskWork.ok_of_bind h
          cases h
          exact ⟨by simpa using hgoal, DiskWork.ok_of_change (ok_of_toward hmoved)⟩

/-- The new path of a file or folder does not climb if the root does not, and if the default
extension has no slash in it. -/
lemma up_not_mem_goal {source : Path} (h : w.resolve path = .ok source)
    (hname : '/' ∉ newName.toList) (hroot : Part.up ∉ w.root.parts)
    (hext : '/' ∉ w.settings.defaultExtension.toList)
    (hmove : d.rename source (source.withFileName (w.givenName newName isFile)) = .ok d') :
    Part.up ∉ (source.withFileName (w.givenName newName isFile)).parts := by
  have hslash := slash_not_mem_givenName hname fun (_ : isFile = true) => hext
  obtain ⟨_, _, _, _, _, -, hgoal, -⟩ := Disk.rename_cases hmove
  have hdots : w.givenName newName isFile ≠ ".." := by
    intro hgiven
    refine hgoal.getLast?_ne_dots ?_
    rw [getLast?_pieces_withFileName hslash, hgiven]
    rfl
  obtain ⟨hin, rfl⟩ := resolve_ok h
  refine up_not_mem_withFileName hslash hdots (up_not_mem_join hin.not_isAbsolute hroot ?_)
  rw [← up_mem_parts_iff]
  exact (leadsIn_iff_parts.1 hin).2

end

end

/-- What stood at one path of a workspace stands at another one. -/
structure Renamed (w : Workspace) (path : String) (d d' : Disk) (source goal : Path) : Prop where
  resolved : w.resolve path = .ok source
  gone : d'.has source = false
  /-- It stands there with all that is in it. A file is found there; a folder that was moved may
  have been on the way, if the path of the root climbs or the default extension has a slash
  in it. -/
  moved : ∃ node, d.locate source = .ok (source.place d.current, node) ∧
    d'.tree.at? (goal.place d.current) = some node ∧
    (node.isFolder = false ∨
        Part.up ∉ w.root.parts ∧ '/' ∉ w.settings.defaultExtension.toList →
      d'.locate goal = .ok (goal.place d.current, node))
  text : ∀ content, w.read path d = (.ok content, d) →
    w.read path d' = (.ok "", d') ∧
      ∀ newPath, w.resolve newPath = .ok goal → w.read newPath d' = (.ok content, d')

section

variable {w : Workspace} {path : String} {d d' : Disk}

lemma renamed_of_rename {newName : String} {isFile : Bool}
    (h : w.rename path newName isFile d = (.ok .success, d')) :
    ∃ source goal, w.targets (.rename path newName isFile) = .ok [source, goal] ∧
      w.Renamed path d d' source goal := by
  obtain ⟨source, hresolve, htargets, hname, hfree, hmove⟩ := ok_of_rename h
  refine ⟨source, _, htargets, ?_⟩
  obtain ⟨node, hmoved⟩ := Disk.moved_of_rename hmove
  have hapart : source.place d.current ≠
      (source.withFileName (w.givenName newName isFile)).place d.current := by
    intro hsame
    have hhas := (hmoved.same hsame).2
    rw [hfree] at hhas
    cases hhas
  refine ⟨hresolve, hmoved.gone hapart, ⟨node, hmoved.before, hmoved.after, ?_⟩,
    fun content hread => ?_⟩
  · rintro (hfile | ⟨hroot, hext⟩)
    · exact hmoved.found (.inl hfile)
    · refine hmoved.found (.inr ?_)
      rw [← up_mem_parts_iff]
      exact up_not_mem_goal hresolve hname hroot hext hmove
  · have htext : node = .file (.text content) := by
      rw [read_eq hresolve] at hread
      unfold Disk.readText at hread
      rw [hmoved.before] at hread
      cases node with
      | folder entries => cases hread
      | file c =>
        cases c with
        | text s =>
          cases hread
          rfl
        | binary bytes => cases hread
    subst htext
    refine ⟨read_of_missing hresolve (hmoved.missing hapart rfl), fun newPath hnew => ?_⟩
    exact read_of_text hnew (Disk.readText_of_locate (hmoved.found (.inl rfl)))

/-! ### Calls that are turned down -/

/-- When the work comes out otherwise than with success, it has not changed the disk. -/
def Settled (work : WorkspaceWork Outcome) : Prop :=
  ∀ d d' outcome, work d = (.ok outcome, d') → outcome ≠ .success → d' = d

section

variable {α : Type}

lemma settled_pure (outcome : Outcome) : Settled (pure outcome) := by
  intro d d' outcome' h _
  cases h
  rfl

lemma settled_throw (e : WorkspaceError) : Settled (throw e) := by
  intro d d' outcome h _
  cases h

lemma success_of_done {work : WorkspaceWork α} {outcome : Outcome}
    (h : (work >>= fun _ => pure Outcome.success) d = (.ok outcome, d')) : outcome = .success := by
  obtain ⟨a, d₁, -, h⟩ := DiskWork.ok_of_bind h
  cases h
  rfl

lemma settled_done (work : WorkspaceWork α) : Settled (work >>= fun _ => pure .success) :=
  fun _ _ _ h hnot => (hnot (success_of_done h)).elim

/-- Work after the folder of a path was made comes out with success or not at all. -/
lemma settled_makeParent (target : Path) (work : WorkspaceWork α) :
    Settled (makeParent target >>= fun _ => work >>= fun _ => pure .success) := by
  intro d d' outcome h hnot
  obtain ⟨_, d₁, -, h⟩ := DiskWork.ok_of_bind h
  exact (hnot (success_of_done h)).elim

end

lemma settled_ask {target : Path} {f : Option Node → WorkspaceWork Outcome}
    (h : ∀ found, Settled (f found)) : Settled (nodeAt? target >>= f) :=
  fun d d' outcome hrun => h _ d d' outcome hrun

lemma settled_moveAt (source goal : Path) : Settled (moveAt path source goal) := by
  unfold moveAt
  refine settled_ask fun found => ?_
  split_ifs
  · exact settled_pure _
  · refine settled_ask fun taken => ?_
    split_ifs
    · exact settled_pure _
    · exact settled_done _

lemma settled_within {work : Path → WorkspaceWork Outcome} (h : ∀ target, Settled (work target)) :
    Settled (w.within path work) := by
  intro d d' outcome hrun
  obtain ⟨target, -, hrun⟩ := ok_of_within hrun
  exact h target d d' outcome hrun

/-- **A request that is turned down has changed nothing.** -/
theorem settled_handle (w : Workspace) (r : Request) : Settled (r.handle w) := by
  cases r with
  | rename path newName isFile =>
    rw [rename_factors]
    split
    · exact settled_moveAt _ _
    · exact settled_throw _
  | change c =>
    cases c with
    | createFile path content =>
      exact settled_within fun target => settled_makeParent target _
    | writeFile path content =>
      exact settled_within fun target => settled_makeParent target _
    | deleteFile path =>
      refine settled_within fun target => settled_ask fun found => ?_
      rcases found with _ | _ | _
      · exact settled_pure _
      · exact settled_done _
      · exact settled_pure _
    | createDirectory path =>
      refine settled_within fun target => settled_ask fun found => ?_
      rcases found with _ | _ | _
      · exact settled_done _
      · exact settled_pure _
      · exact settled_pure _
    | deleteDirectory path =>
      refine settled_within fun target => settled_ask fun found => ?_
      rcases found with _ | _ | _
      · exact settled_pure _
      · exact settled_pure _
      · exact settled_done _

end

/-- **A workspace is a map from paths to texts.** On every disk: a file that was created or written
is read back by the same path, with the default extension for a new one; a file that was deleted
reads as nothing and is missed by a second deletion; a folder that was made is there for a second
call, and one that was deleted is missed by it; a rename moves what is there to where the new path
leads, and nothing is found at the old one any more. A call that comes out otherwise has left the
disk as it was, and so does every reading. Nothing is asked of the path or the disk, but that in a
workspace at the root of the disk itself, which is not made, there has to be a folder and the path
to be one that the disk takes. -/
theorem fileMap (w : Workspace) (d : Disk) :
    (∀ path content d', w.createFile path content d = (.ok .success, d') →
      w.read (w.withDefaultExtension path) d' = (.ok content, d')) ∧
    (∀ path content d', w.writeFile path content d = (.ok .success, d') →
      w.read path d' = (.ok content, d')) ∧
    (∀ path d', w.deleteFile path d = (.ok .success, d') →
      w.read path d' = (.ok "", d') ∧
        w.deleteFile path d' = (.ok (.rejected "File not found"), d')) ∧
    (∀ path d', (w.root.parts = [.root] →
        d.tree.isFolder = true ∧ Disk.malformed? (w.root.join ⟨path⟩) = none) →
      w.createDirectory path d = (.ok .success, d') →
      w.createDirectory path d' = (.ok .alreadyThere, d')) ∧
    (∀ path d', w.deleteDirectory path d = (.ok .success, d') →
      w.deleteDirectory path d' = (.ok (.rejected "Directory not found"), d')) ∧
    (∀ path newName isFile d', w.rename path newName isFile d = (.ok .success, d') →
      ∃ source goal, w.targets (.rename path newName isFile) = .ok [source, goal] ∧
        w.Renamed path d d' source goal) ∧
    (∀ (r : Request) outcome d', r.handle w d = (.ok outcome, d') → outcome ≠ .success → d' = d) ∧
    ∀ path, (w.read path d).2 = d :=
  ⟨fun _ _ _ => read_of_createFile, fun _ _ _ => read_of_writeFile,
    fun _ _ => missing_of_deleteFile, fun _ _ => alreadyThere_of_createDirectory,
    fun _ _ => missing_of_deleteDirectory, fun _ _ _ _ => renamed_of_rename,
    fun r outcome d' => settled_handle w r d d' outcome, fun path => snd_read w path d⟩

section

/-- A workspace in the folder `/shelf`. -/
private def shelf : Workspace where
  root := ⟨"/shelf"⟩
  settings := {}
  tree := ⟨none, none⟩

/-- A disk with a note and an empty folder. -/
private def noteAndFolder : Disk where
  tree := .folder [("shelf", .folder [("a.mne", .file (.text "x")), ("b", .folder [])])]

/-- The laws at calls that succeed, and at one that is turned down. -/
theorem fileMap_noteAndFolder :
    shelf.read "c/new.mne" (shelf.createFile "c/new" "y" noteAndFolder).2 =
        (.ok "y", (shelf.createFile "c/new" "y" noteAndFolder).2) ∧
      shelf.read "a.mne" (shelf.writeFile "a.mne" "z" noteAndFolder).2 =
        (.ok "z", (shelf.writeFile "a.mne" "z" noteAndFolder).2) ∧
      shelf.read "a.mne" (shelf.deleteFile "a.mne" noteAndFolder).2 =
        (.ok "", (shelf.deleteFile "a.mne" noteAndFolder).2) ∧
      (shelf.createDirectory "c" (shelf.createDirectory "c" noteAndFolder).2).1 =
        .ok .alreadyThere ∧
      (shelf.deleteDirectory "b" (shelf.deleteDirectory "b" noteAndFolder).2).1 =
        .ok (.rejected "Directory not found") ∧
      shelf.read "d.mne" (shelf.rename "a.mne" "d" true noteAndFolder).2 =
        (.ok "x", (shelf.rename "a.mne" "d" true noteAndFolder).2) ∧
      (shelf.rename "a.mne" "a" true noteAndFolder).2 = noteAndFolder := by
  obtain ⟨hcreate, hwrite, hdelete, hmake, hremove, hrename, hsettled, -⟩ :=
    fileMap shelf noteAndFolder
  have hname : shelf.withDefaultExtension "c/new" = "c/new.mne" := by decide
  refine ⟨hname ▸ hcreate "c/new" "y" _ rfl, hwrite _ _ _ rfl, (hdelete _ _ rfl).1, ?_, ?_, ?_, ?_⟩
  · exact congrArg Prod.fst (hmake "c" _ (fun hroot => absurd hroot (by decide)) rfl)
  · exact congrArg Prod.fst (hremove "b" _ rfl)
  · obtain ⟨source, goal, htargets, hrenamed⟩ := hrename "a.mne" "d" true _ rfl
    cases htargets
    exact (hrenamed.text "x" rfl).2 "d.mne" rfl
  · exact hsettled (.rename "a.mne" "a" true) .alreadyThere _ rfl (by decide)

/-! ### Exceptions -/

/-- A workspace whose path leads through a folder in it. -/
private def roundabout : Workspace where
  root := ⟨"/shelf/old/.."⟩
  settings := {}
  tree := ⟨none, none⟩

/-- A workspace with a default extension that leads through a folder in it. -/
private def winding : Workspace where
  root := ⟨"/shelf"⟩
  settings := { defaultExtension := "d/../old/../new" }
  tree := ⟨none, none⟩

private def oldFolder : Disk where
  tree := .folder
    [("shelf", .folder [("n.d", .folder []), ("old", .folder [("x.txt", .file (.text "t"))])])]

/-- A workspace at the root of the disk. -/
private def hall : Workspace where
  root := ⟨"/"⟩
  settings := {}
  tree := ⟨none, none⟩

/-- A dot and slashes behind it. -/
private def dotted (slashes : Nat) : String :=
  .ofList ('.' :: List.replicate slashes '/')

private lemma splitOn_slashes (n : Nat) :
    (List.replicate n '/').splitOn '/' = List.replicate (n + 1) [] := by
  induction n with
  | zero => rfl
  | succ n ih =>
    rw [List.replicate_succ, List.splitOn_cons_eq_if_modifyHead, ih]
    simp [List.replicate_succ]

private lemma pieces_dotted (n : Nat) :
    (Path.mk (dotted n)).pieces = ['.'] :: List.replicate n [] := by
  show (dotted n).toList.splitOn '/' = _
  rw [dotted, String.toList_ofList, List.splitOn_cons_eq_if_modifyHead, splitOn_slashes]
  simp [List.replicate_succ]

private lemma resolve_dotted (n : Nat) : hall.resolve (dotted n) = .ok ⟨"/" ++ dotted n⟩ := by
  have hblank : Text.allBlank (dotted n).toList = false := by
    rw [dotted, String.toList_ofList]
    rfl
  have hparts : (Path.mk (dotted n)).parts = [.here] := by
    unfold parts
    rw [pieces_dotted]
    simp [relativeParts, innerPart?]
  have hrelative : (Path.mk (dotted n)).isAbsolute = false := by
    unfold isAbsolute dotted
    rw [String.toList_ofList]
    rfl
  unfold resolve
  rw [hblank, hparts]
  show Except.ok (hall.root.join ⟨dotted n⟩) = _
  unfold join
  rw [hrelative]
  rfl

private lemma parent?_dotted (n : Nat) : (Path.mk ("/" ++ dotted n)).parent? = none := by
  have hpieces : (Path.mk ("/" ++ dotted n)).pieces = [] :: ['.'] :: List.replicate n [] := by
    show ("/" ++ dotted n).toList.splitOn '/' = _
    rw [String.toList_append]
    show ('/' :: (dotted n).toList).splitOn '/' = _
    rw [List.splitOn_cons_eq_if_modifyHead, if_pos (by simp)]
    exact congrArg _ (pieces_dotted n)
  have hinner : innerParts (['.'] :: List.replicate n []) = [] := by
    simp [innerParts, innerPart?]
  unfold parent?
  rw [hpieces]
  rcases innerParts_dropLastPart? (['.'] :: List.replicate n []) with ⟨hnone, -⟩ | ⟨_, _, -, -, h⟩
  · simp [hnone]
  · rw [hinner] at h
    simp at h

private lemma malformed?_dotted {n : Nat} (hlong : longestPath < n + 2) :
    Disk.malformed? ⟨"/" ++ dotted n⟩ = some .nameTooLong := by
  have hnul : '\x00' ∉ ("/" ++ dotted n).toList := by
    simp [dotted]
  have hempty : ("/" ++ dotted n).isEmpty = false := by
    rw [Bool.eq_false_iff, ne_eq, String.isEmpty_iff]
    simp
  have hsize : ∀ m, ("/" ++ dotted m).utf8ByteSize = m + 2 := by
    intro m
    unfold dotted
    induction m with
    | zero => rfl
    | succ m ih =>
      rw [List.replicate_succ', ← List.cons_append, String.ofList_append, ← String.append_assoc,
        String.utf8ByteSize_append, ih]
      rfl
  unfold Disk.malformed?
  rw [if_neg hnul, if_neg (by simp [hempty]), if_pos (by rw [hsize]; exact hlong)]

/-- Where a workspace is no map from paths to texts. A folder that was moved away is missed on the
way to what is in it, if the path of the root leads through it, and to its own new place, if the
default extension does. At the root of the disk, a folder by an overlong path is told to be made
time and again. -/
theorem fileMap_exceptions :
    (roundabout.read "old/x.txt" oldFolder = (.ok "t", oldFolder) ∧
      ∃ d', roundabout.rename "old" "new" false oldFolder = (.ok .success, d') ∧
        roundabout.read "new/x.txt" d' = (.ok "", d')) ∧
    (∃ source goal d', winding.rename "old" "n" true oldFolder = (.ok .success, d') ∧
      winding.targets (.rename "old" "n" true) = .ok [source, goal] ∧
      oldFolder.has source = true ∧ d'.has goal = false) ∧
    hall.createDirectory (dotted 4096) oldFolder = (.ok .success, oldFolder) := by
  refine ⟨⟨rfl, _, rfl, rfl⟩, ⟨_, _, _, rfl, rfl, rfl, rfl⟩, ?_⟩
  exact createDirectory_of_malformed (resolve_dotted _) (parent?_dotted _)
    (malformed?_dotted (by decide))

end

end Workspace

end ScriptedNotes
