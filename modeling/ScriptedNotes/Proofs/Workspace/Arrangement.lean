import Mathlib.Data.Multiset.AddSub
import Mathlib.Data.List.Nodup
import Mathlib.Tactic.Common
import ScriptedNotes.Proofs.Workspace.Occurrences

/-!
Listings that differ in the order in which their folders were read. Putting the folders in order
makes them equal just when the order that is shown leaves nothing open (`sorted_same_iff`): of two
siblings of one kind whose names are the same in lower case, the one that was read first is shown
first, and so the order of reading is still seen.
-/

namespace ScriptedNotes.FileNode

/-- The same nodes, with the children of some of them in another order. -/
inductive Rearranged : FileNode → FileNode → Prop where
  | refl (n : FileNode) : Rearranged n n
  | trans {n m k : FileNode} (h : Rearranged n m) (h' : Rearranged m k) : Rearranged n k
  | own (name : String) (path : Path) (isFolder : Bool) {children children' : List FileNode}
      (h : children.Perm children') :
      Rearranged ⟨name, path, isFolder, children⟩ ⟨name, path, isFolder, children'⟩
  | inner (name : String) (path : Path) (isFolder : Bool) (before after : List FileNode)
      {c c' : FileNode} (h : Rearranged c c') :
      Rearranged ⟨name, path, isFolder, before ++ c :: after⟩
        ⟨name, path, isFolder, before ++ c' :: after⟩

/-- No two siblings have the same key, at any depth. -/
def SiblingsDiffer {κ : Type} (key : FileNode → κ) (n : FileNode) : Prop :=
  ∀ o ∈ n.occurrences, (o.2.children.map key).Nodup

/-- What the order of siblings goes by: the kind of a node, and its name in lower case. -/
def rank (n : FileNode) : Bool × List Char :=
  (n.isFolder, Text.lower n.name.toList)

variable {n m a b c : FileNode} {children children' : List FileNode}

lemma siblingsDiffer_iff {κ : Type} {key : FileNode → κ} : n.SiblingsDiffer key ↔
    (n.children.map key).Nodup ∧ ∀ c ∈ n.children, c.SiblingsDiffer key := by
  unfold SiblingsDiffer
  rw [occurrences_eq, List.forall_mem_cons]
  refine and_congr_right fun _ => ⟨fun h c hc o ho => ?_, fun h o ho => ?_⟩
  · exact h (Prod.map (c.name :: ·) id o)
      (List.mem_flatMap.2 ⟨c, hc, List.mem_map.2 ⟨o, ho, rfl⟩⟩)
  · obtain ⟨c, hc, ho⟩ := List.mem_flatMap.1 ho
    obtain ⟨o', ho', rfl⟩ := List.mem_map.1 ho
    exact h c hc o' ho'

/-! ### The order of siblings -/

lemma precedes_trans (a b c : FileNode) (hab : precedes a b = true) (hbc : precedes b c = true) :
    precedes a c = true :=
  precedes_iff.2 ((precedes_iff.1 hab).trans (precedes_iff.1 hbc))

lemma precedes_total (a b : FileNode) : (precedes a b || precedes b a) = true := by
  rw [Bool.or_eq_true, precedes_iff, precedes_iff]
  exact inOrder_total a b

/-- Nodes may stand in either order just when they have the same rank. -/
lemma rank_eq_iff : rank a = rank b ↔ precedes a b = true ∧ precedes b a = true := by
  rw [precedes_iff, precedes_iff]
  constructor
  · intro h
    obtain ⟨hkind, hname⟩ := Prod.mk.inj h
    refine ⟨⟨fun hb => hkind.trans hb, fun _ => ?_⟩, ⟨fun ha => hkind.symm.trans ha, fun _ => ?_⟩⟩
    · rw [hname]
      exact List.lt_irrefl (α := Char) _
    · rw [hname]
      exact List.lt_irrefl (α := Char) _
  · rintro ⟨hab, hba⟩
    have hkind : a.isFolder = b.isFolder := Bool.eq_iff_iff.2 ⟨hba.1, hab.1⟩
    exact Prod.ext hkind (List.le_antisymm (α := Char) (hab.2 hkind) (hba.2 hkind.symm))

/-- The children in order show the names that they had. -/
lemma map_sorted {κ : Type} {key : FileNode → κ} (hkey : ∀ c, key c.sorted = key c)
    (children : List FileNode) : (children.map sorted).map key = children.map key := by
  rw [List.map_map]
  exact List.map_congr_left fun c _ => hkey c

lemma sorted_name (n : FileNode) : n.sorted.name = n.name := by
  rw [sorted_eq]

lemma sorted_rank (n : FileNode) : n.sorted.rank = n.rank := by
  rw [sorted_eq]
  rfl

/-! ### Where all ranks differ -/

/-- Where all ranks differ the order that is shown does not depend on the order before. -/
lemma mergeSort_eq_of_perm (h : (children.map rank).Nodup) (hperm : children.Perm children') :
    children.mergeSort precedes = children'.mergeSort precedes := by
  have hordered := List.pairwise_mergeSort precedes_trans precedes_total
  refine List.Perm.eq_of_pairwise (fun a b ha hb hab hba => ?_) (hordered children)
    (hordered children') ?_
  · have hb' : b ∈ children := hperm.mem_iff.2 (List.mem_mergeSort.1 hb)
    exact List.inj_on_of_nodup_map h (List.mem_mergeSort.1 ha) hb' (rank_eq_iff.2 ⟨hab, hba⟩)
  · exact ((List.mergeSort_perm _ _).trans hperm).trans (List.mergeSort_perm _ _).symm

/-- A rearrangement leaves a node its rank and brings no ranks together, and when the folders are
put in order it is not seen any more. -/
lemma Rearranged.sorted_eq (h : Rearranged n m) (hranks : n.SiblingsDiffer rank) :
    n.rank = m.rank ∧ m.SiblingsDiffer rank ∧ n.sorted = m.sorted := by
  induction h with
  | refl n => exact ⟨rfl, hranks, rfl⟩
  | trans _ _ ih ih' =>
    obtain ⟨hrank, hm, hsorted⟩ := ih hranks
    obtain ⟨hrank', hk, hsorted'⟩ := ih' hm
    exact ⟨hrank.trans hrank', hk, hsorted.trans hsorted'⟩
  | @own name path isFolder children children' hperm =>
    obtain ⟨hown, hinner⟩ := siblingsDiffer_iff.1 hranks
    have hshown : ((children.map FileNode.sorted).map rank).Nodup := by
      rw [map_sorted sorted_rank]
      exact hown
    refine ⟨rfl, siblingsDiffer_iff.2 ⟨?_, fun c hc => hinner c (hperm.mem_iff.2 hc)⟩, ?_⟩
    · exact (hperm.map rank).nodup_iff.1 hown
    · rw [FileNode.sorted_eq, FileNode.sorted_eq]
      exact congrArg (FileNode.mk name path isFolder)
        (mergeSort_eq_of_perm hshown (hperm.map FileNode.sorted))
  | @inner name path isFolder before after c c' _ ih =>
    obtain ⟨hown, hinner⟩ := siblingsDiffer_iff.1 hranks
    obtain ⟨hrank, hc', hsorted⟩ := ih (hinner c (by simp))
    refine ⟨rfl, siblingsDiffer_iff.2 ⟨?_, fun k hk => ?_⟩, ?_⟩
    · have hranks' : (before ++ c' :: after).map rank = (before ++ c :: after).map rank := by
        rw [List.map_append, List.map_append, List.map_cons, List.map_cons, hrank]
      exact hranks' ▸ hown
    · rcases List.mem_append.1 hk with hk | hk
      · exact hinner k (List.mem_append_left _ hk)
      · rcases List.mem_cons.1 hk with rfl | hk
        · exact hc'
        · exact hinner k (List.mem_append_right _ (List.mem_cons_of_mem _ hk))
    · rw [FileNode.sorted_eq, FileNode.sorted_eq]
      simp only [List.map_append, List.map_cons, hsorted]

/-! ### Where two ranks are the same -/

/-- Nodes of one rank are shown in the order in which they stood. -/
lemma sublist_sorted (hrank : rank a = rank b) (h : [a, b].Sublist n.children) :
    [a.name, b.name].Sublist (n.sorted.children.map FileNode.name) := by
  have hshown : rank a.sorted = rank b.sorted := by rw [sorted_rank, sorted_rank, hrank]
  have hpair := List.pair_sublist_mergeSort precedes_trans precedes_total
    (rank_eq_iff.1 hshown).1 (h.map sorted)
  rw [FileNode.sorted_eq]
  have hnames := hpair.map FileNode.name
  rwa [List.map_cons, List.map_cons, List.map_nil, sorted_name, sorted_name] at hnames

/-- Putting the children in order brings no names together. -/
lemma nodup_sorted_names (h : (n.children.map FileNode.name).Nodup) :
    (n.sorted.children.map FileNode.name).Nodup := by
  have hperm := (List.mergeSort_perm (n.children.map FileNode.sorted) precedes).map FileNode.name
  rw [map_sorted sorted_name] at hperm
  rw [FileNode.sorted_eq]
  exact hperm.nodup_iff.2 h

/-- Two different names cannot stand in both orders, where each occurs once. -/
lemma not_sublist_swap {s t : String} {names : List String} (hnodup : names.Nodup)
    (h : [s, t].Sublist names) : ¬ [t, s].Sublist names := by
  intro h'
  induction names with
  | nil => cases h
  | cons u rest ih =>
    obtain ⟨hu, hrest⟩ := List.nodup_cons.1 hnodup
    cases h with
    | cons _ h =>
      cases h' with
      | cons _ h' => exact ih hrest h h'
      | cons_cons _ h' => exact hu (h.subset (List.mem_cons_of_mem _ List.mem_cons_self))
    | cons_cons _ h =>
      cases h' with
      | cons _ h' => exact hu (h'.subset (List.mem_cons_of_mem _ List.mem_cons_self))
      | cons_cons _ h' => exact hu (h.subset List.mem_cons_self)

/-- Children of one rank can be read in another order so that it is seen. -/
lemma nodup_ranks_of_same {name : String} {path : Path} {isFolder : Bool}
    (hnames : (children.map FileNode.name).Nodup)
    (h : ∀ m, Rearranged ⟨name, path, isFolder, children⟩ m →
      m.sorted = sorted ⟨name, path, isFolder, children⟩) : (children.map rank).Nodup := by
  by_contra htied
  obtain ⟨a, b, hab, hrank⟩ : ∃ a b, [a, b].Sublist children ∧ rank a = rank b := by
    rw [List.Nodup, List.pairwise_map, List.pairwise_iff_forall_sublist] at htied
    push Not at htied
    exact htied
  -- the later of the two is put first, and so the names would stand in both orders
  obtain ⟨rest, hrest⟩ := hab.exists_perm_append
  have hswap : children.Perm ([b, a] ++ rest) :=
    hrest.trans ((List.Perm.swap b a []).append_right rest)
  have hread : [a.name, b.name].Sublist
      ((sorted ⟨name, path, isFolder, children⟩).children.map FileNode.name) :=
    sublist_sorted hrank hab
  refine not_sublist_swap (nodup_sorted_names hnames) hread ?_
  rw [← h _ (.own name path isFolder hswap)]
  exact sublist_sorted hrank.symm (List.sublist_append_left _ _)

/-- What is not seen of a node's rearrangements is not seen of those of a child. -/
lemma sorted_eq_of_inner {name : String} {path : Path} {isFolder : Bool}
    {before after : List FileNode} {c' : FileNode}
    (h : sorted ⟨name, path, isFolder, before ++ c' :: after⟩
      = sorted ⟨name, path, isFolder, before ++ c :: after⟩) : c'.sorted = c.sorted := by
  rw [FileNode.sorted_eq, FileNode.sorted_eq] at h
  have hchildren := (FileNode.mk.inj h).2.2.2
  have hperm : (before.map sorted ++ c'.sorted :: after.map sorted).Perm
      (before.map sorted ++ c.sorted :: after.map sorted) := by
    have hsort := List.mergeSort_perm ((before ++ c' :: after).map sorted) precedes
    have hsort' := List.mergeSort_perm ((before ++ c :: after).map sorted) precedes
    rw [hchildren] at hsort
    have hboth := hsort.symm.trans hsort'
    rwa [List.map_append, List.map_append, List.map_cons, List.map_cons] at hboth
  have hcons := (List.perm_middle.symm.trans hperm).trans List.perm_middle
  have hsame : (c'.sorted ::ₘ ((before.map sorted ++ after.map sorted : List FileNode) :
        Multiset FileNode)) =
      c.sorted ::ₘ (before.map sorted ++ after.map sorted : List FileNode) := by
    rw [Multiset.cons_coe, Multiset.cons_coe]
    exact Multiset.coe_eq_coe.2 hcons
  exact (Multiset.cons_inj_left _).1 hsame

/-- Where the order of reading is not seen, all ranks differ. -/
lemma siblingsDiffer_rank_of_same (n : FileNode) : n.SiblingsDiffer FileNode.name →
    (∀ m, Rearranged n m → m.sorted = n.sorted) → n.SiblingsDiffer rank := by
  induction n using FileNode.ind with
  | node name path isFolder children ih =>
    intro hnames h
    obtain ⟨hown, hinner⟩ := siblingsDiffer_iff.1 hnames
    refine siblingsDiffer_iff.2 ⟨nodup_ranks_of_same hown h, fun c hc => ?_⟩
    obtain ⟨before, after, rfl⟩ := List.append_of_mem hc
    exact ih c hc (hinner c hc) fun c' hc' =>
      sorted_eq_of_inner (h _ (.inner name path isFolder before after hc'))

/-! ### The order of reading -/

/-- **The order in which folders are read is not seen in the listing just when no two siblings of
one kind have names that are the same in lower case.** -/
theorem sorted_same_iff (n : FileNode) (h : n.SiblingsDiffer FileNode.name) :
    (∀ m, Rearranged n m → m.sorted = n.sorted) ↔ n.SiblingsDiffer rank :=
  ⟨siblingsDiffer_rank_of_same n h, fun hranks _ hm => (hm.sorted_eq hranks).2.2.symm⟩

section

private def draft : FileNode := .ofPath ⟨"notes/a.txt"⟩ false []

private def shouted : FileNode := .ofPath ⟨"notes/A.txt"⟩ false []

private def mixed : FileNode :=
  .ofPath ⟨"notes"⟩ true
    [shouted, .ofPath ⟨"notes/a"⟩ true [draft], .ofPath ⟨"notes/b.txt"⟩ false []]

/-- A folder with a file `A.txt`, a file `b.txt` and a folder `a`, in which there is a file `a.txt`:
here the order of reading is not seen. -/
theorem sorted_same_of_mixed : mixed.SiblingsDiffer FileNode.name ∧
    ((∀ m, Rearranged mixed m → m.sorted = mixed.sorted) ↔ mixed.SiblingsDiffer rank) ∧
    mixed.SiblingsDiffer rank := by
  have hnames : mixed.SiblingsDiffer FileNode.name := by
    unfold SiblingsDiffer
    decide +kernel
  refine ⟨hnames, sorted_same_iff mixed hnames, ?_⟩
  unfold SiblingsDiffer
  decide +kernel

/-- Of `a.txt` and `A.txt` in one folder the one that is read first is shown first, and so different
names are not enough. -/
theorem sorted_sees_reading : ¬ ∀ n m : FileNode,
    n.SiblingsDiffer FileNode.name → Rearranged n m → m.sorted = n.sorted := by
  intro h
  have hsorted := h (.ofPath ⟨"notes"⟩ true [draft, shouted])
    (.ofPath ⟨"notes"⟩ true [shouted, draft])
    (by unfold SiblingsDiffer; decide +kernel) (.own _ _ _ (List.Perm.swap _ _ _))
  have hrank : rank draft = rank shouted := by decide +kernel
  have hfirst : [shouted.name, draft.name].Sublist
      ((FileNode.ofPath ⟨"notes"⟩ true [draft, shouted]).sorted.children.map FileNode.name) :=
    hsorted ▸ sublist_sorted hrank.symm (List.Sublist.refl _)
  have hnames := (by decide :
    ((FileNode.ofPath ⟨"notes"⟩ true [draft, shouted]).children.map FileNode.name).Nodup)
  exact not_sublist_swap (nodup_sorted_names hnames)
    (sublist_sorted hrank (List.Sublist.refl _)) hfirst

end

end ScriptedNotes.FileNode
