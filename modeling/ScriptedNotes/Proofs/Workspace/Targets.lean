import Mathlib.Tactic.Common
import ScriptedNotes.Proofs.Workspace.Lexical
import ScriptedNotes.Workspace.Store

/-!
Where the calls of a workspace work. A request that may change the disk is refused, or it works at
targets that the workspace determines from its path, and has nothing else to do with the workspace
(`handle_factors`). The targets lead strictly below the root of the workspace just when the path of
the request has names in it, and for a new name more of them than it climbs over
(`strictlyBelow_targets_iff`).
-/

namespace ScriptedNotes.Workspace

open Run (Outcome Change)
open ScriptedNotes.Path

/-- A call that may change the disk. -/
inductive Request where
  | change (c : Change)
  | rename (path newName : String) (isFile : Bool)

namespace Request

/-- Carries out a request. -/
def handle (w : Workspace) : Request → WorkspaceWork Outcome
  | .change c => Site.perform w c
  | .rename path newName isFile => w.rename path newName isFile

/-- The path that a request is about. -/
def path (w : Workspace) : Request → String
  | .change (.createFile path _) => w.withDefaultExtension path
  | .change (.deleteFile path) | .change (.writeFile path _) | .change (.createDirectory path)
  | .change (.deleteDirectory path) | .rename path _ _ => path

end Request

/-- The name that a file or folder gets by a new name. -/
def givenName (w : Workspace) (newName : String) (isFile : Bool) : String :=
  if isFile then w.withDefaultExtension newName else newName

/-- The paths on the disk that a request creates, overwrites, removes or moves. -/
def targets (w : Workspace) (r : Request) : Except WorkspaceError (List Path) := do
  let target ← w.resolve (r.path w)
  match r with
  | .change _ => return [target]
  | .rename _ newName isFile =>
    if '/' ∈ newName.toList ∨ '\\' ∈ newName.toList then throw (.separator newName)
    return [target, target.withFileName (w.givenName newName isFile)]

/-! ### Work at targets -/

/-- A change is work at the place where its path leads. -/
lemma perform_eq_within (c : Change) :
    ∃ work : Path → WorkspaceWork Outcome, ∀ w : Workspace,
      Site.perform w c = w.within (Request.path w (.change c)) work := by
  cases c with
  | createFile path content => exact ⟨_, fun w => rfl⟩
  | deleteFile path => exact ⟨_, fun w => rfl⟩
  | writeFile path content => exact ⟨_, fun w => rfl⟩
  | createDirectory path => exact ⟨_, fun w => rfl⟩
  | deleteDirectory path => exact ⟨_, fun w => rfl⟩

/-- What a rename does with its source and its goal. -/
def moveAt (path : String) (source goal : Path) : WorkspaceWork Outcome := do
  if (← nodeAt? source).isNone then return .rejected (path ++ " not found")
  if (← nodeAt? goal).isSome then return .alreadyThere
  toward (.rename source goal) (DiskWork.change (·.rename source goal))
  return .success

/-- A rename is a move from the first target to the last. -/
lemma rename_factors (path newName : String) (isFile : Bool) (w : Workspace) :
    Request.handle w (.rename path newName isFile) =
      match w.targets (.rename path newName isFile) with
      | .ok ts => moveAt path (ts.headD default) (ts.getLastD default)
      | .error e => throw e := by
  have hpath : Request.path w (.rename path newName isFile) = path := rfl
  show w.rename path newName isFile = _
  unfold rename targets within
  rw [hpath]
  cases w.resolve path with
  | error e => rfl
  | ok source =>
    by_cases hslash : '/' ∈ newName.toList ∨ '\\' ∈ newName.toList
    · simp only [if_pos hslash]
      rfl
    · simp only [if_neg hslash]
      rfl

/-- **A request works at its targets.** What is done there is the same in all workspaces; where the
targets are refused, the disk is left alone. -/
theorem handle_factors (r : Request) :
    ∃ work : List Path → WorkspaceWork Outcome, ∀ w : Workspace,
      r.handle w =
        match w.targets r with
        | .ok ts => work ts
        | .error e => throw e := by
  cases r with
  | change c =>
    obtain ⟨work, hwork⟩ := perform_eq_within c
    refine ⟨fun ts => work (ts.headD default), fun w => ?_⟩
    show Site.perform w c = _
    rw [hwork w]
    unfold targets within
    cases w.resolve (Request.path w (.change c)) <;> rfl
  | rename path newName isFile => exact ⟨_, rename_factors path newName isFile⟩

/-! ### Where the targets lead -/

/-- How many names at the end of a path a new name takes away, when it puts none there. -/
def climb (newName : String) : Nat :=
  if newName = ".." then 2 else if newName = "" ∨ newName = "." then 1 else 0

/-- How far a request climbs out of its path. -/
def Request.climb (w : Workspace) : Request → Nat
  | .change _ => 0
  | .rename _ newName isFile => Workspace.climb (w.givenName newName isFile)

section

variable {w : Workspace} {path : String} {target : Path}

lemma resolve_ok (h : w.resolve path = .ok target) :
    (Path.mk path).LeadsIn ∧ target = w.root.join ⟨path⟩ := by
  unfold resolve at h
  split at h
  · cases h
  · split at h
    · next hinside =>
      cases h
      refine ⟨fun part hpart => ?_, rfl⟩
      have hstays := List.all_eq_true.1 hinside part hpart
      cases part with
      | here => exact .inl rfl
      | name s => exact .inr ⟨s, rfl⟩
      | root => cases hstays
      | up => cases hstays
    · cases h

/-- A path that is accepted leads below the root by its names. -/
lemma normal_resolve (h : w.resolve path = .ok target) :
    target.normal = w.root.normal ++ (Path.mk path).names.map .name := by
  obtain ⟨hin, rfl⟩ := resolve_ok h
  exact normal_join hin

/-- The name of a target that is below the root is the last one of its path. -/
lemma fileName?_resolve (h : w.resolve path = .ok target) (hnames : (Path.mk path).names ≠ []) :
    ∃ name, target.fileName? = some name := by
  obtain ⟨hin, rfl⟩ := resolve_ok h
  by_cases hroot : w.root.text = ""
  · rw [join_empty hroot]
    exact Option.isSome_iff_exists.1 ((fileName?_isSome_iff hin).2 hnames)
  · obtain ⟨front, last, hlast⟩ := (List.eq_nil_or_concat (Path.mk path).names).resolve_left hnames
    refine ⟨last, ?_⟩
    rw [fileName?_eq_some_iff, hin.parts_join hroot, hlast]
    simp

/-- Where the goal of a rename leads. -/
lemma walk_goal {newName : String} (h : w.resolve path = .ok target)
    (hnames : (Path.mk path).names ≠ []) (hslash : '/' ∉ newName.toList) :
    walk [] (target.withFileName newName).parts =
      walk (((Path.mk path).names.dropLast.map .name).reverse ++ walk [] w.root.parts)
        (innerParts [newName.toList]) := by
  obtain ⟨name, hname⟩ := fileName?_resolve h hnames
  obtain ⟨hin, rfl⟩ := resolve_ok h
  rw [walk_withFileName hname hslash, walk_join_of_leadsIn hin]
  refine congrArg (walk · _) ?_
  obtain ⟨front, last, hlast⟩ := (List.eq_nil_or_concat (Path.mk path).names).resolve_left hnames
  rw [hlast, List.concat_eq_append]
  simp

/-- The goal of a rename is strictly below the root when the path has more names than the new name
takes away. -/
lemma strictlyBelow_goal_iff {newName : String} (h : w.resolve path = .ok target)
    (hnames : (Path.mk path).names ≠ []) (hslash : '/' ∉ newName.toList) :
    (target.withFileName newName).StrictlyBelow w.root ↔
      climb newName < (Path.mk path).names.length := by
  have hwalk := walk_goal h hnames hslash
  obtain ⟨front, last, hlast⟩ := (List.eq_nil_or_concat (Path.mk path).names).resolve_left hnames
  rw [hlast, List.concat_eq_append] at hwalk ⊢
  rw [List.dropLast_concat] at hwalk
  unfold climb
  rw [List.length_append, List.length_singleton]
  by_cases hup : newName = ".."
  · -- two dots come out of the folder that the source is in
    have hparts : innerParts [newName.toList] = [.up] := by
      rw [hup]
      decide
    rw [hparts] at hwalk
    rw [if_pos hup]
    rcases List.eq_nil_or_concat front with rfl | ⟨before, folder, rfl⟩
    · simp only [List.length_nil, Nat.zero_add, Nat.not_lt.2 (Nat.le_succ 1), iff_false]
      exact not_strictlyBelow_of_up hwalk
    · rw [List.concat_eq_append] at hwalk ⊢
      have hnormal : (target.withFileName newName).normal =
          w.root.normal ++ before.map .name := by
        unfold normal
        rw [hwalk, List.map_append, List.reverse_append]
        simp [Part.onto]
      rw [strictlyBelow_iff_of_normal hnormal, ← List.length_pos_iff, List.length_append,
        List.length_singleton]
      omega
  · by_cases hstay : newName = "" ∨ newName = "."
    · have hparts : innerParts [newName.toList] = [] := by
        rcases hstay with rfl | rfl <;> decide
      rw [hparts] at hwalk
      rw [if_neg hup, if_pos hstay]
      have hnormal : (target.withFileName newName).normal = w.root.normal ++ front.map .name := by
        unfold normal
        rw [hwalk]
        simp
      rw [strictlyBelow_iff_of_normal hnormal, ← List.length_pos_iff]
      omega
    · have hparts : innerParts [newName.toList] = [.name newName] := by
        rw [innerParts_name hup hstay]
      rw [hparts] at hwalk
      rw [if_neg hup, if_neg hstay]
      have hnormal : (target.withFileName newName).normal =
          w.root.normal ++ (front ++ [newName]).map .name := by
        unfold normal
        rw [hwalk]
        simp [Part.onto]
      rw [strictlyBelow_iff_of_normal hnormal]
      simp

end

section

variable {w : Workspace}

/-- A new name that passes and the default extension make one name. -/
lemma slash_not_mem_givenName {newName : String} {isFile : Bool} (hname : '/' ∉ newName.toList)
    (hext : isFile = true → '/' ∉ w.settings.defaultExtension.toList) :
    '/' ∉ (w.givenName newName isFile).toList := by
  cases isFile with
  | false => exact hname
  | true =>
    have hlong : '/' ∉ (newName ++ "." ++ w.settings.defaultExtension).toList := by
      simp only [String.toList_append, List.mem_append]
      rintro ((h | h) | h)
      · exact hname h
      · exact absurd h (by decide)
      · exact hext rfl h
    show '/' ∉ (w.withDefaultExtension newName).toList
    unfold withDefaultExtension
    split
    · split
      · exact hname
      · exact hlong
    · exact hlong

/-- What the targets of a request are. -/
lemma targets_ok {r : Request} {ts : List Path} (h : w.targets r = .ok ts) :
    ∃ target, w.resolve (r.path w) = .ok target ∧
      ((∃ c, r = .change c ∧ ts = [target]) ∨
        ∃ path newName isFile, r = .rename path newName isFile ∧ '/' ∉ newName.toList ∧
          ts = [target, target.withFileName (w.givenName newName isFile)]) := by
  unfold targets at h
  cases hresolve : w.resolve (r.path w) with
  | error e =>
    rw [hresolve] at h
    cases h
  | ok target =>
    rw [hresolve] at h
    refine ⟨target, rfl, ?_⟩
    cases r with
    | change c =>
      cases h
      exact .inl ⟨c, rfl, rfl⟩
    | rename path newName isFile =>
      by_cases hslash : '/' ∈ newName.toList ∨ '\\' ∈ newName.toList
      · simp only [if_pos hslash] at h
        cases h
      · simp only [if_neg hslash] at h
        cases h
        exact .inr ⟨path, newName, isFile, rfl, fun hmem => hslash (.inl hmem), rfl⟩

/-- The targets of a request are strictly below the root just when its path has names, and for a
rename more names than the new one climbs over, unless the default extension behind a new name has
slashes in it. -/
lemma strictlyBelow_targets_iff {r : Request} {ts : List Path} (h : w.targets r = .ok ts)
    (hext : ∀ path newName, r = .rename path newName true →
      '/' ∉ w.settings.defaultExtension.toList) :
    (∀ t ∈ ts, t.StrictlyBelow w.root) ↔ r.climb w < (Path.mk (r.path w)).names.length := by
  obtain ⟨target, hresolve, hts⟩ := targets_ok h
  have hsource : target.StrictlyBelow w.root ↔ (Path.mk (r.path w)).names ≠ [] :=
    strictlyBelow_iff_of_normal (normal_resolve hresolve)
  rcases hts with ⟨c, rfl, rfl⟩ | ⟨path, newName, isFile, rfl, hname, rfl⟩
  · rw [List.forall_mem_singleton, hsource]
    exact List.length_pos_iff.symm
  · have hgiven : '/' ∉ (w.givenName newName isFile).toList :=
      slash_not_mem_givenName hname fun hfile => hext path newName (by rw [hfile])
    have hgoal := fun hnames => strictlyBelow_goal_iff hresolve hnames hgiven
    rw [List.forall_mem_cons, List.forall_mem_singleton, hsource]
    constructor
    · rintro ⟨hnames, hbelow⟩
      exact (hgoal hnames).1 hbelow
    · intro hclimb
      have hnames := List.length_pos_iff.1 (Nat.zero_lt_of_lt hclimb)
      exact ⟨hnames, (hgoal hnames).2 hclimb⟩

end

end ScriptedNotes.Workspace
