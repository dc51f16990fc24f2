import ScriptedNotes.Proofs.Workspace.Targets

/-!
Paths that a workspace refuses. A path is forbidden when it is blank, begins with a slash or has two
dots for a part; a call with such a path fails on every disk and touches none, and no other path is
refused (`refused_iff_forbidden`). The exception is the creation of a file, which looks at its path
only when the default extension stands behind it: the empty path, and a path that ends in two dots,
make the name of a file with it (`createFile_takes_forbidden`).
-/

namespace ScriptedNotes

open ScriptedNotes.Path

/-! ### Two dots in a path -/

namespace Path

variable {p : Path}

/-- Before the parts of its pieces a path has at most a part that names nothing. -/
lemma exists_parts_eq (p : Path) :
    ∃ front, p.parts = front ++ innerParts p.pieces ∧
      ∀ part ∈ front, part = .root ∨ part = .here := by
  cases habsolute : p.isAbsolute with
  | true => exact ⟨[.root], parts_of_absolute habsolute, by simp⟩
  | false =>
    rcases parts_of_relative habsolute with hparts | hparts
    · exact ⟨[], hparts, by simp⟩
    · exact ⟨[.here], hparts, by simp⟩

lemma up_mem_innerParts_iff {pieces : List (List Char)} :
    Part.up ∈ innerParts pieces ↔ ['.', '.'] ∈ pieces := by
  unfold innerParts
  rw [List.mem_filterMap]
  constructor
  · rintro ⟨piece, hmem, hpiece⟩
    unfold innerPart? at hpiece
    split_ifs at hpiece with hidle hdots
    · exact hdots ▸ hmem
    · cases hpiece
  · intro hmem
    exact ⟨_, hmem, by decide⟩

/-- A path has two dots for a part just when they are one of its pieces. -/
lemma up_mem_parts_iff : Part.up ∈ p.parts ↔ ['.', '.'] ∈ p.pieces := by
  obtain ⟨front, hparts, hfront⟩ := exists_parts_eq p
  rw [hparts, List.mem_append, up_mem_innerParts_iff]
  refine or_iff_right fun hup => ?_
  rcases hfront _ hup with hpart | hpart <;> cases hpart

/-- A path leads in when nothing in it leads out. -/
lemma leadsIn_iff_parts : p.LeadsIn ↔ p.isAbsolute = false ∧ Part.up ∉ p.parts := by
  rw [leadsIn_iff, up_mem_innerParts_iff, up_mem_parts_iff]

/-- A path that ends in a name does not have two dots for its last piece. -/
lemma ne_dots_of_fileName? {name : String} {before : List (List Char)} {last : List Char}
    (h : p.fileName? = some name) (hpieces : p.pieces = before ++ [last]) :
    ['.', '.'] ≠ last := by
  rintro rfl
  obtain ⟨front, hparts, -⟩ := exists_parts_eq p
  have hdots : innerParts [['.', '.']] = [.up] := rfl
  rw [fileName?_eq_some_iff, hparts, hpieces, innerParts_append, hdots, ← List.append_assoc,
    List.getLast?_concat] at h
  cases h

/-- The name that a path ends in is written in it. -/
lemma subset_of_fileName? {name : String} (h : p.fileName? = some name) :
    name.toList ⊆ p.text.toList := by
  obtain ⟨front, hparts, hfront⟩ := exists_parts_eq p
  have hmem := List.mem_of_getLast? (fileName?_eq_some_iff.1 h)
  rw [hparts, List.mem_append] at hmem
  rcases hmem with hmem | hmem
  · rcases hfront _ hmem with hpart | hpart <;> cases hpart
  · obtain ⟨piece, hpieces, hpiece⟩ := List.mem_filterMap.1 hmem
    rcases innerPart?_cases piece with hcase | hcase | hcase <;> rw [hcase] at hpiece <;>
      cases hpiece
    rw [String.toList_ofList]
    exact Text.subset_of_mem_splitOn hpieces

end Path

namespace Workspace

open Run (Outcome Change)

/-- A path that leads nowhere by itself, or that could lead out of a workspace. -/
def Forbidden (path : String) : Prop :=
  Text.allBlank path.toList = true ∨ (Path.mk path).isAbsolute = true ∨
    Part.up ∈ (Path.mk path).parts

section

variable {α β : Type} {w : Workspace} {path : String}

/-- A call is refused: on every disk it fails, not for anything that the disk does, and leaves the
disk as it is. -/
def Refused (call : WorkspaceWork α) : Prop :=
  ∃ e, (∀ fault, e ≠ .disk fault) ∧ ∀ d, call d = (.error e, d)

/-- The validator turns down the forbidden paths and no others. -/
lemma resolve_eq_error_iff : (∃ e, w.resolve path = .error e) ↔ Forbidden path := by
  have hstays : (Path.mk path).parts.all staysInside = true ↔ (Path.mk path).LeadsIn := by
    rw [List.all_eq_true]
    refine forall₂_congr fun part _ => ?_
    cases part <;> simp [staysInside]
  unfold Forbidden resolve
  by_cases hblank : Text.allBlank path.toList = true
  · simp [hblank]
  · rw [if_neg hblank]
    by_cases hleads : (Path.mk path).LeadsIn
    · obtain ⟨hrelative, hup⟩ := leadsIn_iff_parts.1 hleads
      rw [if_pos (hstays.2 hleads)]
      simp [hblank, hrelative, hup]
    · rw [if_neg fun hall => hleads (hstays.1 hall)]
      have hleadsOut : (Path.mk path).isAbsolute = true ∨ Part.up ∈ (Path.mk path).parts := by
        rw [leadsIn_iff_parts, Classical.not_and_iff_not_or_not, Bool.not_eq_false,
          Classical.not_not] at hleads
        exact hleads
      simp [hleadsOut]

/-- What the validator says is never about the disk. -/
lemma ne_disk_of_resolve {e : WorkspaceError} (h : w.resolve path = .error e) (fault : DiskError) :
    e ≠ .disk fault := by
  unfold resolve at h
  split_ifs at h <;> cases h <;> simp

/-! ### Work that fails for the disk only -/

/-- Whenever the work fails, the disk is at fault. -/
def OnlyDisk (work : WorkspaceWork α) : Prop :=
  ∀ d e, (work d).1 = .error e → ∃ fault, e = .disk fault

lemma onlyDisk_pure (a : α) : OnlyDisk (pure a : WorkspaceWork α) := by
  rintro d e h
  cases h

lemma OnlyDisk.bind {x : WorkspaceWork α} {f : α → WorkspaceWork β} (hx : OnlyDisk x)
    (hf : ∀ a, OnlyDisk (f a)) : OnlyDisk (x >>= f) := by
  intro d e h
  have hbind : (x >>= f) d = ExceptT.bindCont f (x d).1 (x d).2 := rfl
  rw [hbind] at h
  cases hresult : (x d).1 with
  | ok a =>
    rw [hresult] at h
    exact hf a _ e h
  | error e' =>
    rw [hresult] at h
    cases h
    exact hx d e hresult

lemma onlyDisk_adapt (work : DiskWork DiskError α) :
    OnlyDisk (ExceptT.adapt .disk work : WorkspaceWork α) := by
  intro d e h
  have hadapt : (ExceptT.adapt WorkspaceError.disk work d).1 = (work d).1.mapError .disk := rfl
  rw [hadapt] at h
  cases hresult : (work d).1 with
  | ok a =>
    rw [hresult] at h
    cases h
  | error fault =>
    rw [hresult] at h
    cases h
    exact ⟨fault, rfl⟩

lemma onlyDisk_toward (purpose : Purpose) (work : DiskWork Fault α) :
    OnlyDisk (toward purpose work) :=
  onlyDisk_adapt (DiskWork.toward purpose work)

lemma onlyDisk_makeParent (target : Path) : OnlyDisk (makeParent target) :=
  onlyDisk_adapt (DiskWork.makeParent target)

lemma onlyDisk_ask {f : Disk → α} {g : α → WorkspaceWork β} (h : ∀ a, OnlyDisk (g a)) :
    OnlyDisk (DiskWork.ask f >>= g) :=
  fun d => h (f d) d

lemma onlyDisk_moveAt (source goal : Path) : OnlyDisk (moveAt path source goal) := by
  unfold moveAt nodeAt?
  refine onlyDisk_ask fun found => ?_
  split
  · exact onlyDisk_pure _
  · refine onlyDisk_ask fun taken => ?_
    split
    · exact onlyDisk_pure _
    · exact (onlyDisk_toward _ _).bind fun _ => onlyDisk_pure _

/-- Behind the validator a change fails for the disk only. -/
lemma perform_eq_within_onlyDisk (c : Change) :
    ∃ work : Path → WorkspaceWork Outcome, (∀ target, OnlyDisk (work target)) ∧
      ∀ w : Workspace, Site.perform w c = w.within (Request.path w (.change c)) work := by
  have hdone : ∀ (purpose : Purpose) (work : DiskWork Fault Unit),
      OnlyDisk (do toward purpose work; return Outcome.success) :=
    fun purpose work => (onlyDisk_toward purpose work).bind fun _ => onlyDisk_pure _
  cases c with
  | createFile path content =>
    exact ⟨_, fun target => (onlyDisk_makeParent target).bind fun _ => hdone _ _, fun w => rfl⟩
  | writeFile path content =>
    exact ⟨_, fun target => (onlyDisk_makeParent target).bind fun _ => hdone _ _, fun w => rfl⟩
  | deleteFile path =>
    refine ⟨_, fun target => ?_, fun w => rfl⟩
    refine onlyDisk_ask fun found => ?_
    split <;> first | exact hdone _ _ | exact onlyDisk_pure _
  | createDirectory path =>
    refine ⟨_, fun target => ?_, fun w => rfl⟩
    refine onlyDisk_ask fun found => ?_
    split <;> first | exact hdone _ _ | exact onlyDisk_pure _
  | deleteDirectory path =>
    refine ⟨_, fun target => ?_, fun w => rfl⟩
    refine onlyDisk_ask fun found => ?_
    split <;> first | exact hdone _ _ | exact onlyDisk_pure _

/-! ### Refused calls -/

/-- Work that fails for the disk only is not refused. -/
lemma OnlyDisk.not_refused {work : WorkspaceWork α} (h : OnlyDisk work) : ¬ Refused work := by
  rintro ⟨e, hrefusal, hfails⟩
  obtain ⟨fault, hfault⟩ := h ⟨.folder [], []⟩ e (by rw [hfails])
  exact hrefusal fault hfault

/-- Work within a workspace is refused just when its path is forbidden. -/
lemma refused_within_iff {work : Path → WorkspaceWork α} (h : ∀ target, OnlyDisk (work target)) :
    Refused (w.within path work) ↔ Forbidden path := by
  rw [← resolve_eq_error_iff (w := w)]
  unfold within
  cases hresolve : w.resolve path with
  | ok target => simpa using (h target).not_refused
  | error e => simpa using ⟨e, ne_disk_of_resolve hresolve, fun d => rfl⟩

lemma refused_perform_iff (c : Change) :
    Refused (Site.perform w c) ↔ Forbidden (Request.path w (.change c)) := by
  obtain ⟨work, honly, hwork⟩ := perform_eq_within_onlyDisk c
  rw [hwork w]
  exact refused_within_iff honly

lemma refused_read_iff : Refused (w.read path) ↔ Forbidden path :=
  refused_within_iff fun _ => onlyDisk_toward _ _

/-- A new name is turned down as well when it has a separator in it. -/
lemma refused_rename_iff {newName : String} {isFile : Bool} :
    Refused (w.rename path newName isFile) ↔
      Forbidden path ∨ '/' ∈ newName.toList ∨ '\\' ∈ newName.toList := by
  have hmove := rename_factors path newName isFile w
  change w.rename path newName isFile = _ at hmove
  rw [hmove, ← resolve_eq_error_iff (w := w)]
  unfold targets
  cases hresolve : w.resolve (Request.path w (.rename path newName isFile)) with
  | error e =>
    have herror : w.resolve path = .error e := hresolve
    rw [herror]
    exact iff_of_true ⟨e, ne_disk_of_resolve hresolve, fun d => rfl⟩ (.inl ⟨e, rfl⟩)
  | ok source =>
    have hok : w.resolve path = .ok source := hresolve
    rw [hok]
    by_cases hslash : '/' ∈ newName.toList ∨ '\\' ∈ newName.toList
    · refine iff_of_true ?_ (.inr hslash)
      exact ⟨.separator newName, fun _ => by simp, fun d => by simp only [if_pos hslash]; rfl⟩
    · refine iff_of_false ?_ (by simpa using hslash)
      simp only [if_neg hslash]
      exact (onlyDisk_moveAt _ _).not_refused

/-! ### The default extension behind a forbidden path -/

/-- A forbidden path with the default extension behind it stays forbidden if it is absolute or if
two dots come before its last piece. -/
lemma forbidden_withDefaultExtension_iff (hext : '/' ∉ w.settings.defaultExtension.toList)
    (hdot : w.settings.defaultExtension ≠ ".") (h : Forbidden path) :
    Forbidden (w.withDefaultExtension path) ↔
      (Path.mk path).isAbsolute = true ∨ ['.', '.'] ∈ (Path.mk path).pieces.dropLast := by
  have hext' : '/' ∉ ("." ++ w.settings.defaultExtension).toList := by
    rw [String.toList_append, List.mem_append, not_or]
    exact ⟨by decide, hext⟩
  obtain ⟨before, last, hpieces, hmore⟩ := pieces_append (Path.mk path) hext'
  rw [hpieces, List.dropLast_concat]
  -- A text with a point in it is not blank.
  have hblank : ∀ {s : String}, '.' ∈ s.toList → Text.allBlank s.toList ≠ true := by
    intro s hmem hall
    exact absurd (List.all_eq_true.1 hall _ hmem) (by decide)
  have hsame : ∀ {name}, (Path.mk path).fileName? = some name → '.' ∈ name.toList →
      (Forbidden path ↔ (Path.mk path).isAbsolute = true ∨ ['.', '.'] ∈ before) := by
    intro name hname hpoint
    have hlast := ne_dots_of_fileName? hname hpieces
    unfold Forbidden
    rw [up_mem_parts_iff, hpieces, List.mem_append, List.mem_singleton, or_iff_left hlast,
      or_iff_right (hblank (subset_of_fileName? hname hpoint))]
  have hlonger : Forbidden (path ++ "." ++ w.settings.defaultExtension) ↔
      (Path.mk path).isAbsolute = true ∨ ['.', '.'] ∈ before := by
    have htext : (path ++ "." ++ w.settings.defaultExtension).toList =
        path.toList ++ '.' :: w.settings.defaultExtension.toList := by
      simp
    have habsolute : (Path.mk (path ++ "." ++ w.settings.defaultExtension)).isAbsolute =
        (Path.mk path).isAbsolute := by
      unfold isAbsolute
      rw [htext, List.head?_append]
      cases path.toList <;> rfl
    have hparts : (Path.mk (path ++ "." ++ w.settings.defaultExtension)).pieces =
        before ++ [last ++ '.' :: w.settings.defaultExtension.toList] := by
      rw [String.append_assoc, hmore, String.toList_append]
      rfl
    unfold Forbidden
    rw [or_iff_right (hblank (by simp [htext])), habsolute, up_mem_parts_iff, hparts,
      List.mem_append, List.mem_singleton]
    refine ⟨?_, fun hout => hout.imp_right .inl⟩
    rintro (hout | hbefore | hlast)
    · exact .inl hout
    · exact .inr hbefore
    · -- Two dots come about by the extension when the path ends in one.
      rcases last with _ | ⟨c, _ | ⟨c', last⟩⟩
      · exact absurd (String.toList_inj.1 (List.cons.inj hlast).2.symm) hdot
      · obtain ⟨rfl, -⟩ := List.cons.inj hlast
        have hpoint : '.' ∈ path.toList :=
          Text.subset_of_mem_splitOn (hpieces ▸ List.mem_concat_self) List.mem_cons_self
        rcases h with h | h | h
        · exact absurd h (hblank hpoint)
        · exact .inl h
        · rw [up_mem_parts_iff, hpieces, List.mem_append, List.mem_singleton] at h
          exact .inr (h.resolve_right (by decide))
      · simp at hlast
  unfold withDefaultExtension
  split
  · next name hname =>
    split_ifs with hpoint
    · exact hsame hname hpoint
    · exact hlonger
  · exact hlonger

end

section

variable (w : Workspace) (path : String)

/-- **A call with a forbidden path is refused, and no call with another one.** Reading and the calls
that change the disk look at their paths first; the creation of a file looks at its path with the
default extension behind it. With an extension that is neither a point nor has a slash in it, the
creation is refused for a forbidden path if that is absolute or if two dots come before its last
piece. -/
theorem refused_iff_forbidden :
    (Refused (w.read path) ↔ Forbidden path) ∧
    (∀ content, Refused (w.writeFile path content) ↔ Forbidden path) ∧
    (Refused (w.deleteFile path) ↔ Forbidden path) ∧
    (Refused (w.createDirectory path) ↔ Forbidden path) ∧
    (Refused (w.deleteDirectory path) ↔ Forbidden path) ∧
    (∀ newName isFile, Refused (w.rename path newName isFile) ↔
      Forbidden path ∨ '/' ∈ newName.toList ∨ '\\' ∈ newName.toList) ∧
    ∀ content, (Refused (w.createFile path content) ↔ Forbidden (w.withDefaultExtension path)) ∧
      ('/' ∉ w.settings.defaultExtension.toList → w.settings.defaultExtension ≠ "." →
        Forbidden path → (Refused (w.createFile path content) ↔
          (Path.mk path).isAbsolute = true ∨ ['.', '.'] ∈ (Path.mk path).pieces.dropLast)) := by
  have hcreate : ∀ content,
      Refused (w.createFile path content) ↔ Forbidden (w.withDefaultExtension path) :=
    fun content => refused_perform_iff (.createFile path content)
  refine ⟨refused_read_iff, fun content => refused_perform_iff (.writeFile path content),
    refused_perform_iff (.deleteFile path), refused_perform_iff (.createDirectory path),
    refused_perform_iff (.deleteDirectory path), fun newName isFile => refused_rename_iff,
    fun content => ⟨hcreate content, fun hext hdot h => ?_⟩⟩
  rw [hcreate content]
  exact forbidden_withDefaultExtension_iff hext hdot h

end

section

/-- A workspace with the usual settings. -/
private def desk : Workspace where
  root := ⟨"/desk"⟩
  settings := {}
  tree := ⟨none, none⟩

/-- Two dots inside of a path are refused whatever is to be done there. -/
theorem refused_iff_forbidden_climbing :
    Forbidden "a/../b" ∧ Refused (desk.createFile "a/../b" "x") ∧
      Refused (desk.rename "a/../b" "c" true) := by
  have hforbidden : Forbidden "a/../b" := .inr (.inr (by decide))
  obtain ⟨-, -, -, -, -, hrename, hcreate⟩ := refused_iff_forbidden desk "a/../b"
  refine ⟨hforbidden, ?_, (hrename "c" true).2 (.inl hforbidden)⟩
  exact ((hcreate "x").2 (by decide) (by decide) hforbidden).2 (.inr (by decide))

/-- The empty path and two dots are forbidden, and yet files are created for them. -/
theorem createFile_takes_forbidden :
    Forbidden "" ∧ Forbidden ".." ∧
      desk.createFile "" "x" ⟨.folder [("desk", .folder [])], []⟩ =
        (.ok .success,
          ⟨.folder [("desk", .folder [(".mne", .file (.text "x"))])], []⟩) ∧
      desk.createFile ".." "x" ⟨.folder [("desk", .folder [])], []⟩ =
        (.ok .success,
          ⟨.folder [("desk", .folder [("...mne", .file (.text "x"))])], []⟩) :=
  ⟨.inl (by decide), .inr (.inr (by decide)), by rfl, by rfl⟩

end

end Workspace

end ScriptedNotes
