import Mathlib.Tactic.Common
import ScriptedNotes.Workspace.FileTree

/-!
What comes of a walk. While a walk goes on, the folders that its entries are in stand open, and each
is closed into the one around it as soon as an entry is not in it. When all of them are closed, each
listing stands in the listing of its folder (`ofWalk_visits`). No entry of a walk is the folder that
is walked, so closing ends with no more folders open than the entry is in (`closeTo_of_visits`).
-/

namespace ScriptedNotes

/-- Induction over what is in a folder, at every depth. -/
theorem Node.ind {motive : Node → Prop} (file : ∀ c, motive (.file c))
    (folder : ∀ entries, (∀ entry ∈ entries, motive entry.2) → motive (.folder entries)) :
    ∀ n, motive n
  | .file c => file c
  | .folder entries => folder entries fun entry hentry =>
      have hentry' : sizeOf entry < sizeOf entries := List.sizeOf_lt_of_mem hentry
      have hnode : sizeOf entry.2 < sizeOf entry := by
        cases entry
        simp only [Prod.mk.sizeOf_spec]
        omega
      have hlt : sizeOf entry.2 < sizeOf (Node.folder entries) := by
        simp only [Node.folder.sizeOf_spec]
        omega
      Node.ind file folder entry.2
  termination_by n => sizeOf n
  decreasing_by exact hlt

/-! ### Listings -/

mutual

/-- The listing of what stands at a path and at a depth. -/
def Node.listing (s : WorkspaceSettings) (depth : Nat) (path : Path) : Node → FileNode
  | .file _ => .ofPath path false []
  | .folder entries =>
    .ofPath path true
      (if depth < s.maxDepth then Node.entryListings s (depth + 1) path entries else [])

/-- The listings of the entries of a folder that are shown. -/
def Node.entryListings (s : WorkspaceSettings) (depth : Nat) (folder : Path) :
    List (String × Node) → List FileNode
  | [] => []
  | (name, node) :: rest =>
    if s.shows name node then
      Node.listing s depth (folder.join ⟨name⟩) node :: Node.entryListings s depth folder rest
    else Node.entryListings s depth folder rest

end

lemma Node.entryListings_eq (s : WorkspaceSettings) (depth : Nat) (folder : Path)
    (entries : List (String × Node)) :
    Node.entryListings s depth folder entries =
      (entries.filter fun entry => s.shows entry.1 entry.2).map fun entry =>
        entry.2.listing s depth (folder.join ⟨entry.1⟩) := by
  induction entries with
  | nil => rw [Node.entryListings, List.filter_nil, List.map_nil]
  | cons entry entries ih =>
    obtain ⟨name, node⟩ := entry
    rw [Node.entryListings, List.filter_cons, ih]
    split <;> rfl

lemma foldl_adopt (children : List FileNode) (n : FileNode) :
    children.foldl .adopt n = { n with children := n.children ++ children } := by
  induction children generalizing n with
  | nil =>
    obtain ⟨name, path, isFolder, own⟩ := n
    rw [List.foldl_nil, List.append_nil]
  | cons child children ih =>
    rw [List.foldl_cons, ih]
    simp only [FileNode.adopt, List.append_assoc, List.singleton_append]

lemma Node.listing_eq_foldl (s : WorkspaceSettings) (depth : Nat) (path : Path) (node : Node) :
    (node.listing s depth path).children.foldl .adopt (.ofPath path node.isFolder []) =
      node.listing s depth path := by
  rw [foldl_adopt]
  cases node <;> rw [Node.listing] <;> rfl

namespace OpenFolders

variable {o : OpenFolders} {f g : FileNode} {around : List FileNode} {depth outer : Nat}

/-! ### Closing -/

lemma closeTo_of_lt (h : around.length < depth) : closeTo ⟨f, around⟩ depth = ⟨f, around⟩ := by
  unfold closeTo
  cases around with
  | nil => rfl
  | cons parent around =>
    rw [List.length_cons] at h
    exact if_neg (by omega)

/-- A folder is closed into the one around it. -/
lemma closeTo_succ (h : around.length + 1 = depth) :
    closeTo ⟨g, f :: around⟩ depth = ⟨f.adopt g, around⟩ := by
  have hopen : around.length < depth := by omega
  rw [closeTo, closeFrom, if_pos (by omega)]
  exact closeTo_of_lt hopen

lemma closeTo_closeTo (h : outer ≤ depth) (o : OpenFolders) :
    (o.closeTo depth).closeTo outer = o.closeTo outer := by
  obtain ⟨f, around⟩ := o
  unfold closeTo
  dsimp only
  induction around generalizing f with
  | nil => rfl
  | cons parent around ih =>
    rw [closeFrom]
    split
    · next hdeep =>
      rw [ih, closeFrom, if_pos (by omega)]
    · rfl

/-- Closing ends with no more folders open than an entry is in. -/
lemma length_closeTo (h : 0 < depth) (o : OpenFolders) :
    (o.closeTo depth).around.length < depth := by
  obtain ⟨f, around⟩ := o
  unfold closeTo
  dsimp only
  induction around generalizing f with
  | nil => exact h
  | cons parent around ih =>
    rw [closeFrom]
    split
    · exact ih (parent.adopt f)
    · next hdeep =>
      show around.length + 1 < depth
      omega

/-! ### Walks -/

variable {s : WorkspaceSettings} {path : Path}

lemma visit_file (ho : o.closeTo depth = ⟨f, around⟩) :
    o.visit ⟨path, false, depth⟩ = ⟨f.adopt (.ofPath path false []), around⟩ := by
  unfold visit
  dsimp only
  rw [ho]
  rfl

lemma visit_folder (ho : o.closeTo depth = ⟨f, around⟩) :
    o.visit ⟨path, true, depth⟩ = ⟨.ofPath path true [], f :: around⟩ := by
  unfold visit
  dsimp only
  rw [ho]
  rfl

/-- The walk of a node fills its listing. -/
def Fills (s : WorkspaceSettings) (node : Node) : Prop :=
  ∀ (depth : Nat) (path : Path) (f : FileNode) (around : List FileNode), around.length = depth →
    ((Node.visits s depth path node).foldl visit ⟨f, around⟩).closeTo (depth + 1) =
      ⟨(node.listing s depth path).children.foldl .adopt f, around⟩

lemma foldl_entryVisits {entries : List (String × Node)}
    (hentries : ∀ entry ∈ entries, Fills s entry.2) (hdepth : around.length + 1 = depth)
    (ho : o.closeTo depth = ⟨f, around⟩) :
    ((Node.entryVisits s depth path entries).foldl visit o).closeTo depth =
      ⟨(Node.entryListings s depth path entries).foldl .adopt f, around⟩ := by
  induction entries generalizing o f with
  | nil => rwa [Node.entryVisits, Node.entryListings]
  | cons entry entries ih =>
    obtain ⟨name, node⟩ := entry
    obtain ⟨hnode, hrest⟩ := List.forall_mem_cons.1 hentries
    rw [Node.entryVisits, Node.entryListings]
    split
    · rw [List.foldl_cons, List.foldl_append, List.foldl_cons]
      refine ih hrest ?_
      have hlisting := Node.listing_eq_foldl s depth (path.join ⟨name⟩) node
      cases node with
      | file c =>
        rw [Node.visits, List.foldl_nil, Node.listing, Node.isFolder, visit_file ho]
        exact closeTo_of_lt (by omega)
      | folder inner =>
        -- The folder is filled while it is open, and closed into the one around it.
        rw [Node.isFolder] at hlisting ⊢
        rw [visit_folder ho, ← closeTo_closeTo (Nat.le_succ depth),
          hnode depth _ _ (f :: around) hdepth, hlisting]
        exact closeTo_succ hdepth
    · exact ih hrest ho

lemma fills (s : WorkspaceSettings) (node : Node) : Fills s node := by
  induction node using Node.ind with
  | file c =>
    intro depth path f around hdepth
    rw [Node.visits, Node.listing, List.foldl_nil]
    exact closeTo_of_lt (by omega)
  | folder entries ih =>
    intro depth path f around hdepth
    rw [Node.visits, Node.listing]
    have hopen : closeTo ⟨f, around⟩ (depth + 1) = ⟨f, around⟩ :=
      closeTo_of_lt (hdepth ▸ Nat.lt_succ_self _)
    split
    · exact foldl_entryVisits ih (congrArg (· + 1) hdepth) hopen
    · exact hopen

end OpenFolders

/-- What is below a node is deeper. -/
lemma lt_depth_of_mem_visits {s : WorkspaceSettings} {depth : Nat} {path : Path} {node : Node}
    {v : Visit} (h : v ∈ Node.visits s depth path node) : depth < v.depth := by
  induction node using Node.ind generalizing depth path with
  | file c => cases h
  | folder entries ih =>
    rw [Node.visits] at h
    split at h
    · induction entries with
      | nil => cases h
      | cons entry entries ihentries =>
        obtain ⟨name, node⟩ := entry
        obtain ⟨hnode, hrest⟩ := List.forall_mem_cons.1 ih
        rw [Node.entryVisits] at h
        split at h
        · rcases List.mem_cons.1 h with rfl | h
          · exact Nat.lt_succ_self depth
          · rcases List.mem_append.1 h with h | h
            · exact Nat.lt_of_succ_lt (hnode h)
            · exact ihentries hrest h
        · exact ihentries hrest h
    · cases h

/-- **What is put together during a walk is the listing of the folder.** -/
theorem ofWalk_visits (s : WorkspaceSettings) (path : Path) (entries : List (String × Node)) :
    FileNode.ofWalk path (Node.visits s 0 path (.folder entries)) =
      Node.listing s 0 path (.folder entries) := by
  unfold FileNode.ofWalk
  dsimp only
  rw [OpenFolders.fills s (.folder entries) 0 path (.ofPath path true []) [] rfl]
  exact Node.listing_eq_foldl s 0 path (.folder entries)

end ScriptedNotes
