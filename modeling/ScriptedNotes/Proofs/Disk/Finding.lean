import ScriptedNotes.Proofs.Disk.Calls

/-!
What is found at a path after a call. A path that names an entry of a folder finds what that entry
is (`locate_of_target`), and it names the same entry as long as no folder on its way is taken away
(`FoldersKept.target`), which no call about a file does. So what such a call puts there is found
there by the same path (`Names.locate_put`), and what it takes away is missed (`locate_removeFile`).
-/

namespace ScriptedNotes

open ScriptedNotes.Path

namespace Disk

variable {d d' : Disk} {p : Path} {position q folder : Position}
  {pieces : List (List Char)} {s : String} {slashed : Bool} {node : Node}

/-! ### Entries of folders -/

lemma folderAt_iff_view : d.FolderAt q ↔ d.tree.view q = some none := by
  unfold FolderAt Node.view
  cases d.tree.at? q with
  | none => simp
  | some n => cases n <;> simp [Node.content?]

lemma view_eq_none_iff : d.tree.view q = none ↔ d.tree.at? q = none :=
  Option.map_eq_none_iff

/-- Folders lead to a folder. -/
lemma FolderAt.of_append {r : Position} (h : d.FolderAt (position ++ r)) : d.FolderAt position := by
  obtain ⟨entries, h⟩ := h
  rw [Node.at?_append] at h
  cases hnode : d.tree.at? position with
  | none =>
    rw [hnode] at h
    cases h
  | some n =>
    rw [hnode] at h
    cases n with
    | folder entries => exact ⟨entries, hnode⟩
    | file c => cases r <;> cases h

lemma at?_put (h : d.FolderAt folder) (s : String) (node : Node) :
    (d.put folder s node).tree.at? (folder ++ [s]) = some node := by
  obtain ⟨entries, h⟩ := h
  unfold put
  rw [Node.at?_update_append, h]
  simp [Node.putEntry, Node.at?, Keyed.get?_put_self]

lemma at?_erase (d : Disk) (folder : Position) (s : String) :
    (d.erase folder s).tree.at? (folder ++ [s]) = none := by
  unfold erase
  rw [Node.at?_update_append]
  cases d.tree.at? folder with
  | none => rfl
  | some n =>
    cases n with
    | file c => rfl
    | folder entries => simp [Node.eraseEntry, Node.at?, Keyed.get?_erase_self]

/-- Where nothing stands at the place of a path, nothing is located. -/
lemma has_eq_false (h : d.tree.at? (p.place d.current) = none) : d.has p = false := by
  unfold has
  cases hlocate : d.locate p with
  | error fault => rfl
  | ok found =>
    have hnode := (locate_ok hlocate).2
    rw [locate_eq hlocate, h] at hnode
    cases hnode

lemma readText_of_locate {content : String} (h : d.locate p = .ok (q, .file (.text content))) :
    d.readText p = .ok content := by
  unfold readText
  rw [h]
  rfl

/-! ### The way to an entry -/

lemma follow_append (d : Disk) (position : Position) (ps qs : List (List Char)) :
    d.follow position (ps ++ qs) = d.follow position ps >>= (d.follow · qs) := by
  induction ps generalizing position with
  | nil => rfl
  | cons piece rest ih =>
    rw [List.cons_append, follow, follow]
    split
    · rfl
    · rfl
    · dsimp only
      split_ifs
      · exact ih _
      · exact ih _
      · rfl
      · exact ih _

/-- Pieces that say nothing stay in a folder. -/
lemma follow_of_idle (h : d.FolderAt position) (hidle : ∀ piece ∈ pieces, piece = []) :
    d.follow position pieces = .ok position := by
  obtain ⟨entries, h⟩ := h
  induction pieces with
  | nil => rfl
  | cons piece rest ih =>
    obtain ⟨rfl, hrest⟩ := List.forall_mem_cons.1 hidle
    unfold follow
    rw [h]
    exact (if_pos (.inl rfl)).trans (ih hrest)

/-- The dot behind the way to a folder asks for that folder. -/
lemma folder_of_follow_dot (h : d.follow position (pieces ++ [['.']]) = .ok folder) :
    d.follow position pieces = .ok folder ∧ d.FolderAt folder := by
  rw [follow_append] at h
  obtain ⟨q, hq, h⟩ := ok_of_bind h
  unfold follow at h
  split at h
  · cases h
  · cases h
  · next entries hentries =>
    rw [if_pos (.inr rfl)] at h
    cases h
    exact ⟨hq, entries, hentries⟩

/-- How the pieces of a path end. -/
lemma pieces_of_splitEnding {before : List (List Char)} {last : List Char}
    (h : splitEnding pieces = some (before, last, slashed)) :
    ∃ idle, pieces = before ++ last :: idle ∧ (∀ piece ∈ idle, piece = []) ∧
      (idle = [] ↔ slashed = false) := by
  have hlast := (splitEnding_eq h).1
  unfold splitEnding at h
  have hsplit : pieces.reverse = pieces.reverse.takeWhile (·.isEmpty) ++
      pieces.reverse.dropWhile (·.isEmpty) := List.takeWhile_append_dropWhile.symm
  split at h
  · cases h
  · next last' before' hdrop =>
    cases h
    rw [hdrop] at hsplit
    have hidle : ∀ piece ∈ (pieces.reverse.takeWhile (·.isEmpty)).reverse, piece = [] := by
      intro piece hpiece
      exact List.isEmpty_iff.1 (List.all_eq_true.1 List.all_takeWhile _ (List.mem_reverse.1 hpiece))
    have hpieces := congrArg List.reverse hsplit
    rw [List.reverse_reverse, List.reverse_append, List.reverse_cons, List.append_assoc] at hpieces
    refine ⟨_, hpieces, hidle, ?_⟩
    generalize (pieces.reverse.takeWhile (·.isEmpty)).reverse = idle at hpieces hidle
    subst hpieces
    rcases List.eq_nil_or_concat idle with rfl | ⟨front, piece, rfl⟩
    · simpa using hlast
    · obtain rfl : piece = [] := hidle piece (by simp)
      refine iff_of_false (by simp) ?_
      rw [List.concat_eq_append, ← List.append_assoc, ← List.append_assoc, List.getLast?_concat]
      decide

/-- When a path names an entry of a folder. -/
lemma target_eq_name_iff : d.target p = .ok (folder, .name s slashed) ↔
    malformed? p = none ∧ ∃ before last, splitEnding p.pieces = some (before, last, slashed) ∧
      d.follow (d.start p) (before ++ [['.']]) = .ok folder ∧
      last ≠ ['.'] ∧ last ≠ ['.', '.'] ∧ s = .ofList last := by
  unfold target
  constructor
  · intro h
    split at h
    · cases h
    · next hmalformed =>
      split at h
      · cases h
      · next before last slashed' hending =>
        obtain ⟨position, hfollow, h⟩ := ok_of_bind h
        split_ifs at h with hdot hdots
        · cases h
        · cases h
        · cases h
          exact ⟨hmalformed, before, last, hending, hfollow, hdot, hdots, rfl⟩
  · rintro ⟨hmalformed, before, last, hending, hfollow, hdot, hdots, rfl⟩
    rw [hmalformed, hending]
    dsimp only
    rw [hfollow]
    exact (if_neg hdot).trans (if_neg hdots)

lemma folderAt_of_target (h : d.target p = .ok (folder, .name s slashed)) : d.FolderAt folder := by
  obtain ⟨-, before, last, -, hfollow, -⟩ := target_eq_name_iff.1 h
  exact (folder_of_follow_dot hfollow).2

/-- What is found at a position when pieces that say nothing lead on from it. -/
lemma found_of_idle (hidle : ∀ piece ∈ pieces, piece = [])
    (hslashed : pieces = [] ↔ slashed = false) :
    (d.follow q pieces >>= fun position =>
      match d.tree.at? position with
      | some n => .ok (position, n)
      | none => .error .notFound) =
    match d.tree.at? q with
    | none => .error .notFound
    | some n => if slashed && !n.isFolder then .error .notFolder else .ok (q, n) := by
  have hlook : d.follow q pieces = .ok q → (d.follow q pieces >>= fun position =>
      match d.tree.at? position with
      | some n => (.ok (position, n) : Except Fault (Position × Node))
      | none => .error .notFound) =
      match d.tree.at? q with
      | some n => .ok (q, n)
      | none => .error .notFound := by
    intro hstay
    rw [hstay]
    rfl
  cases hnode : d.tree.at? q with
  | none =>
    cases pieces with
    | nil => rw [hlook rfl, hnode]
    | cons piece rest =>
      rw [follow, hnode]
      rfl
  | some n =>
    cases n with
    | folder entries =>
      rw [hlook (follow_of_idle ⟨entries, hnode⟩ hidle), hnode]
      simp [Node.isFolder]
    | file c =>
      cases pieces with
      | nil =>
        rw [hlook rfl, hnode]
        simp [hslashed.1 rfl]
      | cons piece rest =>
        have htrue : slashed = true := by
          rw [← Bool.not_eq_false, ← hslashed]
          exact List.cons_ne_nil _ _
        rw [follow, hnode, htrue]
        rfl

/-- **A path that names an entry finds what the entry is**, and no file when slashes follow the
name. -/
theorem locate_of_target (h : d.target p = .ok (folder, .name s slashed))
    (hs : s.utf8ByteSize ≤ longestName) :
    d.locate p = match d.tree.at? (folder ++ [s]) with
      | none => .error .notFound
      | some n => if slashed && !n.isFolder then .error .notFolder else .ok (folder ++ [s], n) := by
  obtain ⟨hmalformed, before, last, hending, hfollow, hdot, hdots, rfl⟩ := target_eq_name_iff.1 h
  obtain ⟨hway, entries, hfolder⟩ := folder_of_follow_dot hfollow
  obtain ⟨idle, hpieces, hidle, hslashed⟩ := pieces_of_splitEnding hending
  have hlast := (splitEnding_eq hending).1
  have hstep : d.follow (d.start p) p.pieces = d.follow (folder ++ [.ofList last]) idle := by
    rw [hpieces, follow_append, hway]
    show d.follow folder (last :: idle) = _
    rw [follow, hfolder]
    dsimp only
    rw [if_neg (by simp [hlast, hdot]), if_neg hdots, if_neg (Nat.not_lt.2 hs)]
  unfold locate
  rw [hmalformed]
  dsimp only
  rw [hstep]
  exact found_of_idle hidle hslashed

/-! ### Folders that are kept -/

/-- What was a folder is still one. -/
structure FoldersKept (d d' : Disk) : Prop where
  current : d'.current = d.current
  folder : ∀ {q}, d.FolderAt q → d'.FolderAt q

/-- Folders are kept where only files and what is below them change. -/
lemma SameBut.foldersKept {positions : List Position} (h : SameBut positions d d')
    (hfiles : ∀ position ∈ positions, ¬ d.FolderAt position) : FoldersKept d d' := by
  refine ⟨h.current, fun {q} hq => ?_⟩
  rw [folderAt_iff_view, h.view q, ← folderAt_iff_view]
  · exact hq
  · rintro position hposition ⟨r, rfl⟩
    exact hfiles position hposition hq.of_append

namespace FoldersKept

lemma follow (hkept : FoldersKept d d') (h : d.follow position pieces = .ok q) :
    d'.follow position pieces = .ok q := by
  induction pieces generalizing position with
  | nil => exact h
  | cons piece rest ih =>
    unfold Disk.follow at h ⊢
    split at h
    · cases h
    · cases h
    · next entries hfolder =>
      obtain ⟨entries', hfolder'⟩ := hkept.folder ⟨entries, hfolder⟩
      rw [hfolder']
      dsimp only at h ⊢
      split_ifs at h ⊢ <;> exact ih h

/-- **A path leads to the same entry while folders are kept.** -/
theorem target (hkept : FoldersKept d d') (h : d.target p = .ok (folder, .name s slashed)) :
    d'.target p = .ok (folder, .name s slashed) := by
  rw [target_eq_name_iff] at h ⊢
  obtain ⟨hmalformed, before, last, hending, hfollow, hlast⟩ := h
  have hstart : d'.start p = d.start p := by
    unfold start
    rw [hkept.current]
  refine ⟨hmalformed, before, last, hending, ?_, hlast⟩
  rw [hstart]
  exact hkept.follow hfollow

end FoldersKept

/-- A path names an entry of a folder, with slashes behind the name only if the node is a folder. -/
def Names (d : Disk) (p : Path) (folder : Position) (s : String) (node : Node) : Prop :=
  ∃ slashed, d.target p = .ok (folder, .name s slashed) ∧ s.utf8ByteSize ≤ longestName ∧
    (slashed = false ∨ node.isFolder = true)

namespace Names

lemma place (h : d.Names p folder s node) : folder ++ [s] = p.place d.current := by
  obtain ⟨_, htarget, -⟩ := h
  exact target_name htarget

lemma folderAt (h : d.Names p folder s node) : d.FolderAt folder := by
  obtain ⟨_, htarget, -⟩ := h
  exact folderAt_of_target htarget

/-- The node is found by the path that names it. -/
lemma locate (h : d.Names p folder s node) (hnode : d.tree.at? (folder ++ [s]) = some node) :
    d.locate p = .ok (p.place d.current, node) := by
  rw [← h.place]
  obtain ⟨_, htarget, hs, hslashed⟩ := h
  rw [locate_of_target htarget hs, hnode]
  refine if_neg ?_
  rcases hslashed with hfalse | hfolder <;> simp [*]

lemma missing (h : d.Names p folder s node) (hnode : d.tree.at? (folder ++ [s]) = none) :
    d.locate p = .error .notFound := by
  obtain ⟨_, htarget, hs, -⟩ := h
  rw [locate_of_target htarget hs, hnode]

lemma of_kept (h : d.Names p folder s node) (hkept : FoldersKept d d') :
    d'.Names p folder s node := by
  obtain ⟨slashed, htarget, hrest⟩ := h
  exact ⟨slashed, hkept.target htarget, hrest⟩

/-- What is put where a path names it is found by that path. -/
lemma locate_put (h : d.Names p folder s node) (hfree : ¬ d.FolderAt (folder ++ [s])) :
    (d.put folder s node).locate p = .ok (p.place d.current, node) := by
  have hkept : FoldersKept d (d.put folder s node) :=
    (SameBut.put d folder s node).foldersKept (List.forall_mem_singleton.2 hfree)
  exact (h.of_kept hkept).locate (at?_put h.folderAt s node)

end Names

/-! ### The calls -/

lemma entry?_ok {found : Option Node} (h : d.entry? folder s = .ok found) :
    s.utf8ByteSize ≤ longestName ∧ found = d.tree.at? (folder ++ [s]) := by
  unfold entry? at h
  split_ifs at h with hlong
  cases h
  exact ⟨Nat.le_of_not_lt hlong, rfl⟩

lemma not_folderAt_of_file {c : Content} (h : d.tree.at? q = some (.file c)) : ¬ d.FolderAt q := by
  rintro ⟨entries, hentries⟩
  rw [h] at hentries
  cases hentries

lemma not_folderAt_of_none (h : d.tree.at? q = none) : ¬ d.FolderAt q := by
  rintro ⟨entries, hentries⟩
  rw [h] at hentries
  cases hentries

/-- A new folder is found. -/
lemma locate_makeFolder (h : d.makeFolder p = .ok d') :
    d'.locate p = .ok (p.place d.current, .folder []) := by
  obtain ⟨⟨folder, ending⟩, htarget, h⟩ := ok_of_bind h
  cases ending with
  | name s slashed =>
    obtain ⟨found, hentry, h⟩ := ok_of_bind h
    obtain ⟨hs, rfl⟩ := entry?_ok hentry
    split_ifs at h with hsome
    cases h
    have hnames : d.Names p folder s (.folder []) := ⟨slashed, htarget, hs, .inr rfl⟩
    exact hnames.locate_put (not_folderAt_of_none (by simpa using hsome))
  | dot | dots | root => cases h

/-- A text is written over no folder, and it is found where it was written to. -/
lemma locate_writeText {content : String} (h : d.writeText p content = .ok d') :
    FoldersKept d d' ∧ d'.locate p = .ok (p.place d.current, .file (.text content)) := by
  have hbut := sameBut_writeText h
  obtain ⟨⟨folder, ending⟩, htarget, h⟩ := ok_of_bind h
  cases ending with
  | name s slashed =>
    cases slashed with
    | true => cases h
    | false =>
      obtain ⟨found, hentry, h⟩ := ok_of_bind h
      obtain ⟨hs, rfl⟩ := entry?_ok hentry
      split at h
      · cases h
      · next hfile =>
        cases h
        have hnames : d.Names p folder s (.file (.text content)) := ⟨false, htarget, hs, .inl rfl⟩
        have hfree : ¬ d.FolderAt (folder ++ [s]) := fun ⟨entries, hfolder⟩ => hfile entries hfolder
        refine ⟨hbut.foldersKept (List.forall_mem_singleton.2 ?_), hnames.locate_put hfree⟩
        rwa [← hnames.place]
  | dot | dots | root => cases h

/-- A file that is taken away is missed. -/
lemma locate_removeFile (h : d.removeFile p = .ok d') : d'.locate p = .error .notFound := by
  have hbut := sameBut_removeFile h
  obtain ⟨⟨folder, ending⟩, htarget, h⟩ := ok_of_bind h
  cases ending with
  | name s slashed =>
    obtain ⟨found, hentry, h⟩ := ok_of_bind h
    obtain ⟨hs, rfl⟩ := entry?_ok hentry
    split at h
    · cases h
    · cases h
    · next c hfile =>
      split_ifs at h with hslashed
      cases h
      have hnames : d.Names p folder s (.file c) :=
        ⟨slashed, htarget, hs, .inl (by simpa using hslashed)⟩
      rw [← hnames.place] at hbut
      have hkept := hbut.foldersKept (List.forall_mem_singleton.2 (not_folderAt_of_file hfile))
      exact (hnames.of_kept hkept).missing (at?_erase d folder s)
  | dot | dots | root => cases h

/-- Nothing is at the place of a folder that is taken away. -/
lemma at?_removeFolder (h : d.removeFolder p = .ok d') :
    d'.tree.at? (p.place d.current) = none := by
  obtain ⟨⟨folder, ending⟩, htarget, h⟩ := ok_of_bind h
  cases ending with
  | name s slashed =>
    obtain ⟨found, -, h⟩ := ok_of_bind h
    rw [← target_name htarget]
    split at h
    · cases h
    · cases h
    · cases h
    · cases h
      exact at?_erase d folder s
  | dot | dots | root => cases h

end Disk

end ScriptedNotes
