import Mathlib.Data.Set.Card
import ScriptedNotes.Proofs.Keyed
import ScriptedNotes.Proofs.Workspace.Lexical
import ScriptedNotes.Proofs.Workspace.Occurrences
import ScriptedNotes.Proofs.Workspace.Walking

/-!
The listing of a folder as a picture of it. A node of a listing stands at a position, the names that
lead to it. Each entry that is to be listed stands at its position once, nothing else does, and each
is found by its path (`listing_mirrors_folder`).
-/

namespace ScriptedNotes

/-! ### Entries -/

/-- What may be the name of an entry. -/
def IsEntryName (name : String) : Prop :=
  name ≠ "" ∧ '/' ∉ name.toList

instance : DecidablePred IsEntryName := fun _ => inferInstanceAs (Decidable (_ ∧ _))

/-- In every folder the entries have different names. -/
inductive Node.WellNamed : Node → Prop
  | file (c : Content) : WellNamed (.file c)
  | folder {entries : List (String × Node)} : (entries.map Prod.fst).Nodup →
    (∀ entry ∈ entries, IsEntryName entry.1) → (∀ entry ∈ entries, WellNamed entry.2) →
    WellNamed (.folder entries)

/-- An entry that is to be listed: it is not too deep, and neither it nor a folder on the way to it
is hidden or skipped. -/
structure Node.Listed (s : WorkspaceSettings) (room : Nat) (root : Node) (p : Position)
    (e : Node) : Prop where
  found : root.at? p = some e
  depth : p.length ≤ room
  shown : ∀ q name n, q ++ [name] <+: p → root.at? (q ++ [name]) = some n →
    name.toList.head? ≠ some '.' ∧ ¬ (n.isFolder = true ∧ name ∈ s.skippedFolders)

variable {s : WorkspaceSettings} {room depth : Nat} {root e node : Node} {p : Position}
  {name : String} {entries : List (String × Node)} {path : Path}

lemma shows_iff : s.shows name node = true ↔
    name.toList.head? ≠ some '.' ∧ ¬ (node.isFolder = true ∧ name ∈ s.skippedFolders) := by
  unfold WorkspaceSettings.shows
  simp only [Bool.and_eq_true, decide_eq_true_eq, Bool.not_eq_true', Bool.and_eq_false_iff,
    List.contains_eq_mem, decide_eq_false_iff_not, not_and_or, Bool.not_eq_true]

namespace Node

lemma listed_nil_iff : Listed s room root [] e ↔ root = e := by
  constructor
  · exact fun h => Option.some.inj h.found
  · rintro rfl
    refine ⟨rfl, Nat.zero_le room, fun q name n hprefix _ => ?_⟩
    exact absurd (List.prefix_nil.1 hprefix) (by simp)

/-- What is listed of a folder is listed of one of its entries. -/
lemma listed_cons_iff (hnames : (entries.map Prod.fst).Nodup) :
    Listed s room (.folder entries) (name :: p) e ↔
      ∃ inner node, room = inner + 1 ∧ (name, node) ∈ entries ∧ s.shows name node = true ∧
        Listed s inner node p e := by
  have hat : ∀ q, at? (name :: q) (.folder entries) =
      (Keyed.get? name entries).bind (at? q) := fun _ => rfl
  constructor
  · rintro ⟨hfound, hdepth, hshown⟩
    rw [hat] at hfound
    obtain ⟨node, hget, hnode⟩ := Option.bind_eq_some_iff.1 hfound
    obtain ⟨inner, rfl⟩ := Nat.exists_eq_add_of_le' (Nat.succ_le_of_lt (Nat.lt_of_lt_of_le
      (List.length_pos_of_mem List.mem_cons_self) hdepth))
    refine ⟨inner, node, rfl, (Keyed.get?_eq_some_iff hnames).1 hget, ?_, hnode,
      Nat.le_of_succ_le_succ hdepth, fun q k n hprefix hn => ?_⟩
    · exact shows_iff.2 (hshown [] name node ⟨p, rfl⟩ (by rw [List.nil_append, hat, hget]; rfl))
    · exact hshown (name :: q) k n (List.cons_prefix_cons.2 ⟨rfl, hprefix⟩)
        (by rw [List.cons_append, hat, hget]; exact hn)
  · rintro ⟨inner, node, rfl, hmem, hshows, hnode, hdepth, hshown⟩
    have hget := (Keyed.get?_eq_some_iff hnames).2 hmem
    refine ⟨by rw [hat, hget]; exact hnode, Nat.succ_le_succ hdepth, fun q k n hprefix hn => ?_⟩
    cases q with
    | nil =>
      obtain ⟨rfl, -⟩ := List.cons_prefix_cons.1 hprefix
      rw [List.nil_append, hat, hget] at hn
      cases hn
      exact shows_iff.1 hshows
    | cons k' q =>
      obtain ⟨rfl, htail⟩ := List.cons_prefix_cons.1 hprefix
      rw [List.cons_append, hat, hget] at hn
      exact hshown q k n htail hn

end Node

/-! ### Names and paths -/

/-- The path of what stands at a position below a path. -/
def Path.below (path : Path) (p : Position) : Path :=
  p.foldl (fun q name => q.join ⟨name⟩) path

lemma Path.parts_join_name (hname : IsEntryName name) (hdot : name.toList.head? ≠ some '.')
    (path : Path) : (path.join ⟨name⟩).parts = path.parts ++ [.name name] := by
  have habsolute : (Path.mk name).isAbsolute = false :=
    not_isAbsolute_iff.2 fun h => hname.2 (List.mem_of_mem_head? h)
  have hpieces : (Path.mk name).pieces = [name.toList] := List.splitOn_eq_singleton hname.2
  have hinner : innerParts [name.toList] = [.name name] := by
    refine innerParts_name ?_ (not_or.2 ⟨hname.1, ?_⟩) <;> rintro rfl <;> exact hdot rfl
  by_cases hpath : path.text = ""
  · have hnone : path.parts = [] := by
      obtain ⟨text⟩ := path
      subst hpath
      rfl
    rw [join_empty hpath, hnone, List.nil_append, parts_eq, hpieces, ← hinner]
    cases htext : name.toList with
    | nil => exact absurd (String.toList_eq_nil_iff.1 htext) hname.1
    | cons c cs =>
      have hfirst : c :: cs ≠ ['.'] := by
        intro h
        rw [htext, h] at hdot
        exact hdot rfl
      exact if_neg hfirst
  · rw [parts_join habsolute hpath, hpieces, hinner]

lemma Path.parts_below
    (hp : ∀ name ∈ p, IsEntryName name ∧ name.toList.head? ≠ some '.') (path : Path) :
    (path.below p).parts = path.parts ++ p.map .name := by
  induction p generalizing path with
  | nil => exact (List.append_nil path.parts).symm
  | cons name p ih =>
    obtain ⟨hname, hp⟩ := List.forall_mem_cons.1 hp
    show ((path.join ⟨name⟩).below p).parts = _
    rw [ih hp, parts_join_name hname.1 hname.2, List.append_assoc]
    rfl

namespace Node

lemma wellNamed_inv (h : WellNamed (.folder entries)) :
    (entries.map Prod.fst).Nodup ∧ (∀ entry ∈ entries, IsEntryName entry.1) ∧
      ∀ entry ∈ entries, WellNamed entry.2 := by
  cases h with
  | folder hnodup hnames hnodes => exact ⟨hnodup, hnames, hnodes⟩

/-- What is listed of a well named folder is well named and has names that may stand in a path. -/
lemma Listed.wellNamed (hroot : root.WellNamed) (h : Listed s room root p e) :
    e.WellNamed ∧ ∀ name ∈ p, IsEntryName name ∧ name.toList.head? ≠ some '.' := by
  induction p generalizing root room with
  | nil =>
    rw [listed_nil_iff] at h
    exact ⟨h ▸ hroot, List.forall_mem_nil _⟩
  | cons name p ih =>
    cases root with
    | file c => cases h.found
    | folder entries =>
      obtain ⟨hnodup, hnames, hnodes⟩ := wellNamed_inv hroot
      obtain ⟨inner, node, -, hmem, hshows, hlisted⟩ := (listed_cons_iff hnodup).1 h
      obtain ⟨hwell, hp⟩ := ih (hnodes _ hmem) hlisted
      exact ⟨hwell, List.forall_mem_cons.2 ⟨⟨hnames _ hmem, (shows_iff.1 hshows).1⟩, hp⟩⟩

/-! ### Listings -/

lemma listing_fields (s : WorkspaceSettings) (depth : Nat) (path : Path) (node : Node) :
    (node.listing s depth path).name = path.shownName ∧
      (node.listing s depth path).path = path ∧
      (node.listing s depth path).isFolder = node.isFolder := by
  cases node <;> rw [listing] <;> exact ⟨rfl, rfl, rfl⟩

lemma listing_name (hname : IsEntryName name) (hdot : name.toList.head? ≠ some '.') :
    (node.listing s depth (path.join ⟨name⟩)).name = name := by
  have hlast : (path.join ⟨name⟩).fileName? = some name := by
    rw [Path.fileName?_eq_some_iff, Path.parts_join_name hname hdot, List.getLast?_concat]
  rw [(listing_fields s depth _ node).1, Path.shownName, hlast]
  rfl

lemma mem_children_listing (hroom : depth + room = s.maxDepth) {c : FileNode} :
    c ∈ (listing s depth path (.folder entries)).children ↔
      ∃ inner name node, room = inner + 1 ∧ (name, node) ∈ entries ∧ s.shows name node = true ∧
        c = node.listing s (depth + 1) (path.join ⟨name⟩) := by
  rw [listing]
  show c ∈ (if depth < s.maxDepth then _ else _) ↔ _
  rw [entryListings_eq]
  constructor
  · intro h
    split at h
    · next hdepth =>
      obtain ⟨⟨name, node⟩, hentry, rfl⟩ := List.mem_map.1 h
      obtain ⟨hmem, hshows⟩ := List.mem_filter.1 hentry
      obtain ⟨inner, rfl⟩ := Nat.exists_eq_add_of_le' (show 1 ≤ room by omega)
      exact ⟨inner, name, node, rfl, hmem, hshows, rfl⟩
    · cases h
  · rintro ⟨inner, name, node, rfl, hmem, hshows, rfl⟩
    rw [if_pos (by omega)]
    exact List.mem_map.2 ⟨(name, node), List.mem_filter.2 ⟨hmem, hshows⟩, rfl⟩

/-- **The nodes of a listing are the listings of what is to be listed, each at its position.** -/
theorem mem_occurrences_listing (hnode : node.WellNamed) (hroom : depth + room = s.maxDepth)
    {m : FileNode} :
    (p, m) ∈ (node.listing s depth path).occurrences ↔
      ∃ e, Listed s room node p e ∧ m = e.listing s (depth + p.length) (path.below p) := by
  induction p generalizing node depth room path with
  | nil =>
    rw [FileNode.mem_occurrences_nil]
    simp only [listed_nil_iff, exists_eq_left', List.length_nil, Nat.add_zero]
    rfl
  | cons name p ih =>
    rw [FileNode.mem_occurrences_cons]
    cases node with
    | file c =>
      rw [listing]
      refine iff_of_false (fun h => ?_) fun h => ?_
      · obtain ⟨c, hc, -⟩ := h
        cases hc
      · obtain ⟨e, he, -⟩ := h
        cases he.found
    | folder entries =>
      obtain ⟨hnodup, hnames, hnodes⟩ := wellNamed_inv hnode
      have hlength : depth + (name :: p).length = depth + 1 + p.length := by
        rw [List.length_cons]
        omega
      have hbelow : path.below (name :: p) = (path.join ⟨name⟩).below p := rfl
      simp only [mem_children_listing hroom, listed_cons_iff hnodup, hlength, hbelow]
      constructor
      · rintro ⟨-, ⟨inner, k, node, rfl, hmem, hshows, rfl⟩, hname, hoccurs⟩
        rw [listing_name (hnames _ hmem) (shows_iff.1 hshows).1] at hname
        subst hname
        obtain ⟨e, he, hm⟩ :=
          (ih (hnodes _ hmem) (show depth + 1 + inner = s.maxDepth by omega)).1 hoccurs
        exact ⟨e, ⟨inner, node, rfl, hmem, hshows, he⟩, hm⟩
      · rintro ⟨e, ⟨inner, node, rfl, hmem, hshows, he⟩, hm⟩
        refine ⟨_, ⟨inner, name, node, rfl, hmem, hshows, rfl⟩,
          listing_name (hnames _ hmem) (shows_iff.1 hshows).1, ?_⟩
        exact (ih (hnodes _ hmem) (show depth + 1 + inner = s.maxDepth by omega)).2 ⟨e, he, hm⟩

lemma nodup_names_listing (hnode : node.WellNamed) :
    ((node.listing s depth path).children.map FileNode.name).Nodup := by
  cases node with
  | file c =>
    rw [listing]
    exact List.nodup_nil
  | folder entries =>
    obtain ⟨hnodup, hnames, -⟩ := wellNamed_inv hnode
    rw [listing]
    show (List.map FileNode.name (if depth < s.maxDepth then _ else _)).Nodup
    rw [entryListings_eq]
    split
    · have hmap : ((entries.filter fun entry => s.shows entry.1 entry.2).map fun entry =>
          entry.2.listing s (depth + 1) (path.join ⟨entry.1⟩)).map FileNode.name =
          (entries.filter fun entry => s.shows entry.1 entry.2).map Prod.fst := by
        rw [List.map_map]
        refine List.map_congr_left fun entry hentry => ?_
        obtain ⟨hmem, hshows⟩ := List.mem_filter.1 hentry
        exact listing_name (hnames _ hmem) (shows_iff.1 hshows).1
      rw [hmap]
      exact hnodup.sublist ((List.filter_sublist).map _)
    · exact List.nodup_nil

lemma nodup_positions_listing (hnode : node.WellNamed) (hroom : depth + room = s.maxDepth) :
    ((node.listing s depth path).occurrences.map Prod.fst).Nodup := by
  refine FileNode.nodup_positions fun p m hm => ?_
  obtain ⟨e, he, rfl⟩ := (mem_occurrences_listing hnode hroom).1 hm
  exact nodup_names_listing (he.wellNamed hnode).1

end Node

/-! ### The tree -/

/-- A tree is the picture of a folder: its nodes stand for the entries that are to be listed. -/
structure FileTree.Mirrors (t : FileTree) (s : WorkspaceSettings) (path : Path) (folder : Node)
    (root : FileNode) : Prop where
  root_eq : t.root = some root
  once : (root.occurrences.map Prod.fst).Nodup
  /-- A node stands at a position just when an entry there is to be listed. -/
  occurs_iff : ∀ p, (∃ n, (p, n) ∈ root.occurrences) ↔ ∃ e, Node.Listed s s.maxDepth folder p e
  kind : ∀ p n e, (p, n) ∈ root.occurrences → folder.at? p = some e →
    n.isFolder = e.isFolder ∧ n.path = path.below p
  parent : ∀ p name n, (p ++ [name], n) ∈ root.occurrences →
    ∃ parent, (p, parent) ∈ root.occurrences ∧ n ∈ parent.children ∧ n.name = name
  inOrder : ∀ p n, (p, n) ∈ root.occurrences → n.children.Pairwise FileNode.InOrder
  size_eq : t.size = {p | p ≠ [] ∧ ∃ e, Node.Listed s s.maxDepth folder p e}.ncard
  /-- A node is found by the path of its entry, however that is written. -/
  found : ∀ p n q, (p, n) ∈ root.occurrences → (path.below p).same q = true → t.find? q = some n

lemma sorted_listing_fields (s : WorkspaceSettings) (depth : Nat) (path : Path) (e : Node) :
    (e.listing s depth path).sorted.path = path ∧
      (e.listing s depth path).sorted.isFolder = e.isFolder := by
  rw [FileNode.sorted_eq]
  exact (Node.listing_fields s depth path e).2

lemma mem_occurrences_sorted (hfolder : node.WellNamed) {m : FileNode} :
    (p, m) ∈ (node.listing s 0 path).sorted.occurrences ↔
      ∃ e, Node.Listed s s.maxDepth node p e ∧
        m = (e.listing s p.length (path.below p)).sorted := by
  rw [(FileNode.occurrences_sorted _).mem_iff, List.mem_map]
  constructor
  · rintro ⟨⟨q, k⟩, hk, hqk⟩
    obtain ⟨rfl, rfl⟩ := Prod.mk.inj hqk
    obtain ⟨e, he, rfl⟩ := (Node.mem_occurrences_listing hfolder (Nat.zero_add _)).1 hk
    exact ⟨e, he, by rw [Nat.zero_add]; rfl⟩
  · rintro ⟨e, he, rfl⟩
    refine ⟨(p, e.listing s (0 + p.length) (path.below p)),
      (Node.mem_occurrences_listing hfolder (Nat.zero_add _)).2 ⟨e, he, rfl⟩, ?_⟩
    rw [Nat.zero_add]
    rfl

lemma exists_occurrence_iff (hfolder : node.WellNamed) :
    (∃ n, (p, n) ∈ (node.listing s 0 path).sorted.occurrences) ↔
      ∃ e, Node.Listed s s.maxDepth node p e := by
  constructor
  · rintro ⟨n, hn⟩
    obtain ⟨e, he, -⟩ := (mem_occurrences_sorted hfolder).1 hn
    exact ⟨e, he⟩
  · rintro ⟨e, he⟩
    exact ⟨_, (mem_occurrences_sorted hfolder).2 ⟨e, he, rfl⟩⟩

lemma nodup_positions_sorted (hfolder : node.WellNamed) :
    ((node.listing s 0 path).sorted.occurrences.map Prod.fst).Nodup := by
  have hperm := (FileNode.occurrences_sorted (node.listing s 0 path)).map Prod.fst
  rw [List.map_map] at hperm
  exact hperm.nodup_iff.2 (Node.nodup_positions_listing hfolder (Nat.zero_add s.maxDepth))

/-- The nodes below the root are as many as the entries that are to be listed. -/
lemma size_sorted (hfolder : node.WellNamed) :
    (node.listing s 0 path).sorted.size =
      {p | p ≠ [] ∧ ∃ e, Node.Listed s s.maxDepth node p e}.ncard := by
  have hnodup : ((node.listing s 0 path).sorted.occurrences.map Prod.fst).Nodup :=
    nodup_positions_sorted hfolder
  have hsize := FileNode.size_eq (node.listing s 0 path).sorted
  have hmem : ∀ p, p ∈ (node.listing s 0 path).sorted.occurrences.map Prod.fst ↔
      ∃ e, Node.Listed s s.maxDepth node p e := by
    intro p
    rw [← exists_occurrence_iff hfolder, List.mem_map]
    exact ⟨fun ⟨⟨q, n⟩, hn, hq⟩ => ⟨n, hq ▸ hn⟩, fun ⟨n, hn⟩ => ⟨(p, n), hn, rfl⟩⟩
  obtain ⟨below, hbelow⟩ : ∃ below, (node.listing s 0 path).sorted.occurrences.map Prod.fst =
      [] :: below := ⟨_, by rw [FileNode.occurrences_eq, List.map_cons]⟩
  rw [← List.length_map Prod.fst, hbelow, List.length_cons] at hsize
  rw [hbelow, List.nodup_cons] at hnodup
  have hset : {p | p ≠ [] ∧ ∃ e, Node.Listed s s.maxDepth node p e} = ↑below.toFinset := by
    ext p
    rw [Set.mem_ofPred_eq, ← hmem, hbelow, List.coe_toFinset, Set.mem_ofPred_eq, List.mem_cons]
    exact ⟨fun h => h.2.resolve_left h.1, fun h => ⟨fun he => hnodup.1 (he ▸ h), .inr h⟩⟩
  rw [hset, Set.ncard_coe_finset, List.toFinset_card_of_nodup hnodup.2]
  exact Nat.succ.inj hsize

/-- The path of a node says where the node stands. -/
lemma parts_of_mem_sorted (hfolder : node.WellNamed) {n : FileNode}
    (hn : (p, n) ∈ (node.listing s 0 path).sorted.occurrences) :
    n.path = path.below p ∧ n.path.parts = path.parts ++ p.map .name := by
  obtain ⟨e, he, rfl⟩ := (mem_occurrences_sorted hfolder).1 hn
  rw [(sorted_listing_fields s p.length (path.below p) e).1]
  exact ⟨rfl, Path.parts_below (he.wellNamed hfolder).2 path⟩

/-- A node of the tree is the only one with the path of its entry. -/
lemma find?_sorted (hfolder : node.WellNamed) {n : FileNode} {q : Path}
    (hn : (p, n) ∈ (node.listing s 0 path).sorted.occurrences)
    (hq : (path.below p).same q = true) : (node.listing s 0 path).sorted.find? q = some n := by
  obtain ⟨hpath, hparts⟩ := parts_of_mem_sorted hfolder hn
  refine FileNode.find?_eq_some hn ?_ fun p' n' hn' hq' => ?_
  · rwa [hpath]
  · rw [← hpath] at hq
    simp only [Path.same, beq_iff_eq] at hq hq'
    rw [← hq, hparts, (parts_of_mem_sorted hfolder hn').2, List.append_right_inj,
      List.map_inj_right fun _ _ h => Path.Part.name.inj h] at hq'
    subst hq'
    exact FileNode.eq_of_mem_occurrences (nodup_positions_sorted hfolder) hn' hn

/-- **The tree of a folder is the picture of the folder**, in whatever order the folder has its
entries; and for each entry of the walk closing ends with no more folders open than it is in. -/
theorem listing_mirrors_folder (s : WorkspaceSettings) {d : Disk} {path : Path}
    {position : Position} {entries : List (String × Node)}
    (hlocate : d.locate path = .ok (position, .folder entries))
    (hnames : (Node.folder entries).WellNamed) :
    ∃ t root, FileTree.ofFolder s path d = .ok t ∧ t.Mirrors s path (.folder entries) root ∧
      ∀ v ∈ Node.visits s 0 path (.folder entries), ∀ o : OpenFolders,
        (o.closeTo v.depth).around.length < v.depth := by
  have htree : FileTree.ofFolder s path d =
      .ok ⟨some (Node.listing s 0 path (.folder entries)).sorted, some path⟩ := by
    unfold FileTree.ofFolder
    rw [hlocate, ← ofWalk_visits]
    rfl
  refine ⟨_, (Node.listing s 0 path (.folder entries)).sorted, htree, ?_,
    fun v hv o => o.length_closeTo (lt_depth_of_mem_visits hv)⟩
  exact {
    root_eq := rfl
    once := nodup_positions_sorted hnames
    occurs_iff := fun p => exists_occurrence_iff hnames
    kind := fun p n e hn hat => by
      obtain ⟨e', he', rfl⟩ := (mem_occurrences_sorted hnames).1 hn
      obtain rfl : e' = e := Option.some.inj (he'.found.symm.trans hat)
      exact (sorted_listing_fields s p.length (path.below p) e').symm
    parent := fun p name n hn => FileNode.mem_occurrences_concat hn
    inOrder := fun p n hn => by
      obtain ⟨e, -, rfl⟩ := (mem_occurrences_sorted hnames).1 hn
      exact FileNode.children_sorted _
    size_eq := size_sorted hnames
    found := fun p n q hn hq => find?_sorted hnames hn hq }

/-- Entries out of order, with hidden, skipped and deep ones among them. -/
def plotEntries : List (String × Node) :=
  [("b.txt", .file (.text "")),
    ("zeta", .folder [("inner.txt", .file (.text "")),
      ("deep", .folder [("far.txt", .file (.text ""))])]),
    (".hidden", .folder [("note.txt", .file (.text ""))]),
    ("node_modules", .folder [("x", .file (.text ""))]),
    ("A.txt", .file (.text "")), ("bare", .folder [])]

def plotDisk : Disk where
  tree := .folder [("plot", .folder plotEntries)]

theorem listing_mirrors_folder_plot :
    plotDisk.locate ⟨"plot/."⟩ = .ok (["plot"], .folder plotEntries) ∧
      (Node.folder plotEntries).WellNamed ∧
      ∃ t root, FileTree.ofFolder ⟨"mne", ["node_modules"], 2⟩ ⟨"plot/."⟩ plotDisk = .ok t ∧
        t.Mirrors ⟨"mne", ["node_modules"], 2⟩ ⟨"plot/."⟩ (.folder plotEntries) root ∧
        ∀ v ∈ Node.visits ⟨"mne", ["node_modules"], 2⟩ 0 ⟨"plot/."⟩ (.folder plotEntries),
          ∀ o : OpenFolders, (o.closeTo v.depth).around.length < v.depth := by
  have hlocate : plotDisk.locate ⟨"plot/."⟩ = .ok (["plot"], .folder plotEntries) := by rfl
  have hone : ∀ name, IsEntryName name → (Node.folder [(name, .file (.text ""))]).WellNamed :=
    fun name hname => .folder (List.nodup_singleton name) (by simpa using hname)
      (by simpa using .file _)
  have hnames : (Node.folder plotEntries).WellNamed := by
    refine .folder (by decide) (by decide) ?_
    simp only [plotEntries, List.forall_mem_cons, List.not_mem_nil, false_implies, implies_true,
      and_true]
    refine ⟨.file _, ?_, hone _ (by decide), hone _ (by decide), .file _, ?_⟩
    · refine .folder (by decide) (by decide) ?_
      simp only [List.forall_mem_cons, List.not_mem_nil, false_implies, implies_true, and_true]
      exact ⟨.file _, hone _ (by decide)⟩
    · exact .folder List.nodup_nil (by decide) (by simp)
  exact ⟨hlocate, hnames, listing_mirrors_folder _ hlocate hnames⟩

end ScriptedNotes
