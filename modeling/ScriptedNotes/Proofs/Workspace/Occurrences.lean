import Mathlib.Data.List.Nodup
import Mathlib.Data.List.Perm.Basic
import Mathlib.Tactic.Common
import ScriptedNotes.Workspace.FileTree

/-!
The nodes of a listing with the positions at which they stand. What is said of a listing in order to
know it (where its nodes are, how many, which of them has a path) is said by its occurrences, and
putting the folders in order changes only the order of these (`occurrences_sorted`).
-/

namespace ScriptedNotes.FileNode

variable {n m c : FileNode} {p : Position} {name : String} {a b : FileNode}

/-- Induction over a node and what is listed below it. -/
theorem ind {motive : FileNode → Prop}
    (node : ∀ name path isFolder children, (∀ c ∈ children, motive c) →
      motive ⟨name, path, isFolder, children⟩) : ∀ n, motive n
  | ⟨name, path, isFolder, children⟩ => node name path isFolder children fun c hc =>
      have hlt : sizeOf c < sizeOf (FileNode.mk name path isFolder children) := by
        have hchild := List.sizeOf_lt_of_mem hc
        simp only [FileNode.mk.sizeOf_spec]
        omega
      ind node c
  termination_by n => sizeOf n
  decreasing_by exact hlt

mutual

/-- The nodes from one on downwards, each with the names that lead to it. -/
def occurrences : FileNode → List (Position × FileNode)
  | ⟨name, path, isFolder, children⟩ =>
    ([], ⟨name, path, isFolder, children⟩) :: occurrencesEach children

def occurrencesEach : List FileNode → List (Position × FileNode)
  | [] => []
  | n :: rest => n.occurrences.map (Prod.map (n.name :: ·) id) ++ occurrencesEach rest

end

lemma occurrencesEach_eq (ns : List FileNode) :
    occurrencesEach ns = ns.flatMap fun n => n.occurrences.map (Prod.map (n.name :: ·) id) := by
  induction ns with
  | nil => rw [occurrencesEach, List.flatMap_nil]
  | cons n ns ih => rw [occurrencesEach, ih, List.flatMap_cons]

lemma occurrences_eq (n : FileNode) :
    n.occurrences =
      ([], n) :: n.children.flatMap fun c => c.occurrences.map (Prod.map (c.name :: ·) id) := by
  cases n
  rw [occurrences, occurrencesEach_eq]

/-! ### Positions -/

lemma mem_occurrences_nil : ([], m) ∈ n.occurrences ↔ m = n := by
  rw [occurrences_eq, List.mem_cons]
  constructor
  · rintro (h | h)
    · exact (Prod.mk.inj h).2
    · obtain ⟨c, -, hc⟩ := List.mem_flatMap.1 h
      obtain ⟨⟨q, k⟩, -, he⟩ := List.mem_map.1 hc
      cases (Prod.mk.inj he).1
  · rintro rfl
    exact .inl rfl

lemma mem_occurrences_cons : (name :: p, m) ∈ n.occurrences ↔
    ∃ c ∈ n.children, c.name = name ∧ (p, m) ∈ c.occurrences := by
  rw [occurrences_eq, List.mem_cons]
  constructor
  · rintro (h | h)
    · cases (Prod.mk.inj h).1
    · obtain ⟨c, hc, hmem⟩ := List.mem_flatMap.1 h
      obtain ⟨⟨q, k⟩, hq, he⟩ := List.mem_map.1 hmem
      obtain ⟨hposition, rfl⟩ := Prod.mk.inj he
      obtain ⟨hname, rfl⟩ := List.cons.inj hposition
      exact ⟨c, hc, hname, hq⟩
  · rintro ⟨c, hc, rfl, hmem⟩
    exact .inr (List.mem_flatMap.2 ⟨c, hc, List.mem_map.2 ⟨(p, m), hmem, rfl⟩⟩)

/-- A node stands among the children of the node one name before it. -/
lemma mem_occurrences_concat (h : (p ++ [name], m) ∈ n.occurrences) :
    ∃ parent, (p, parent) ∈ n.occurrences ∧ m ∈ parent.children ∧ m.name = name := by
  induction p generalizing n with
  | nil =>
    obtain ⟨c, hc, hname, hmem⟩ := mem_occurrences_cons.1 h
    obtain rfl := mem_occurrences_nil.1 hmem
    exact ⟨n, mem_occurrences_nil.2 rfl, hc, hname⟩
  | cons k p ih =>
    obtain ⟨c, hc, hname, hmem⟩ := mem_occurrences_cons.1 h
    obtain ⟨parent, hparent, hchild⟩ := ih hmem
    exact ⟨parent, mem_occurrences_cons.2 ⟨c, hc, hname, hparent⟩, hchild⟩

/-- No position occurs twice where the children of every node have different names. -/
lemma nodup_positions (h : ∀ p m, (p, m) ∈ n.occurrences → (m.children.map FileNode.name).Nodup) :
    (n.occurrences.map Prod.fst).Nodup := by
  induction n using ind with
  | node name path isFolder children ih =>
    have hhere : (children.map FileNode.name).Nodup := h [] _ (mem_occurrences_nil.2 rfl)
    rw [occurrences_eq, List.map_cons, List.nodup_cons, List.map_flatMap]
    have hpositions : ∀ c : FileNode,
        (c.occurrences.map (Prod.map (c.name :: ·) id)).map Prod.fst =
          (c.occurrences.map Prod.fst).map (c.name :: ·) := by
      intro c
      rw [List.map_map, List.map_map]
      rfl
    simp only [hpositions]
    refine ⟨fun hmem => ?_, List.nodup_flatMap.2 ⟨fun c hc => ?_, ?_⟩⟩
    · obtain ⟨c, -, hc⟩ := List.mem_flatMap.1 hmem
      obtain ⟨q, -, hq⟩ := List.mem_map.1 hc
      cases hq
    · refine (ih c hc fun p m hm => h (c.name :: p) m ?_).map (List.cons_injective)
      exact mem_occurrences_cons.2 ⟨c, hc, rfl, hm⟩
    · refine (List.pairwise_map.1 hhere).imp fun {c d} hne => ?_
      intro q hq hq'
      obtain ⟨r, -, rfl⟩ := List.mem_map.1 hq
      obtain ⟨r', -, he⟩ := List.mem_map.1 hq'
      exact hne (List.cons.inj he).1.symm

lemma eq_of_mem_occurrences (h : (n.occurrences.map Prod.fst).Nodup) (ha : (p, a) ∈ n.occurrences)
    (hb : (p, b) ∈ n.occurrences) : a = b :=
  (Prod.mk.inj (List.inj_on_of_nodup_map h ha hb rfl)).2

/-! ### Counting and finding -/

lemma sizeEach_eq {ns : List FileNode} (h : ∀ n ∈ ns, n.size + 1 = n.occurrences.length) :
    sizeEach ns = (occurrencesEach ns).length := by
  induction ns with
  | nil => rfl
  | cons n ns ih =>
    obtain ⟨hn, hns⟩ := List.forall_mem_cons.1 h
    rw [sizeEach, occurrencesEach, List.length_append, List.length_map, ih hns, ← hn,
      Nat.add_comm 1]

lemma size_eq (n : FileNode) : n.size + 1 = n.occurrences.length := by
  induction n using ind with
  | node name path isFolder children ih =>
    rw [size, occurrences, List.length_cons, sizeEach_eq ih]

lemma findAmong?_eq {path : Path} {ns : List FileNode}
    (h : ∀ n ∈ ns, n.find? path =
      (n.occurrences.find? fun o => o.2.path.same path).map Prod.snd) :
    findAmong? path ns =
      ((occurrencesEach ns).find? fun o => o.2.path.same path).map Prod.snd := by
  induction ns with
  | nil => rfl
  | cons n ns ih =>
    obtain ⟨hn, hns⟩ := List.forall_mem_cons.1 h
    rw [findAmong?, occurrencesEach, List.find?_append, Option.map_or, hn, ih hns, List.find?_map,
      Option.map_map]
    rfl

lemma find?_eq (path : Path) (n : FileNode) :
    n.find? path = (n.occurrences.find? fun o => o.2.path.same path).map Prod.snd := by
  induction n using ind with
  | node name own isFolder children ih =>
    rw [find?, occurrences, List.find?_cons]
    split
    · next h => simp [h]
    · next h => simp [h, findAmong?_eq ih]

/-- The first node with a path is the one that has it. -/
lemma find?_eq_some {path : Path} (hn : (p, m) ∈ n.occurrences) (hpath : m.path.same path = true)
    (hother : ∀ q k, (q, k) ∈ n.occurrences → k.path.same path = true → k = m) :
    n.find? path = some m := by
  rw [find?_eq]
  cases hfind : n.occurrences.find? fun o => o.2.path.same path with
  | none => exact absurd hpath (List.find?_eq_none.1 hfind _ hn)
  | some o =>
    have hsame := List.find?_some hfind
    rw [Option.map_some, hother o.1 o.2 (List.mem_of_find?_eq_some hfind) hsame]

/-! ### Order -/

/-- One node may stand before another: no file before a folder, and of two folders or two files not
the one whose name comes later, both in lower case. -/
def InOrder (a b : FileNode) : Prop :=
  (b.isFolder = true → a.isFolder = true) ∧
    (a.isFolder = b.isFolder →
      ¬ List.Lex (fun x y : Char => x.val < y.val) (Text.lower b.name.toList)
        (Text.lower a.name.toList))

lemma precedes_iff : precedes a b = true ↔ InOrder a b := by
  have hlex : ∀ s t : List Char, s.lex t (fun x y => x.val < y.val) = true ↔
      List.Lex (fun x y => x.val < y.val) s t := by
    simp only [List.lex_eq_true_iff_lex, decide_eq_true_eq, implies_true]
  unfold precedes InOrder
  rw [← hlex]
  cases a.isFolder <;> cases b.isFolder <;> simp

lemma InOrder.trans (hab : InOrder a b) (hbc : InOrder b c) : InOrder a c := by
  refine ⟨fun h => hab.1 (hbc.1 h), fun hac => ?_⟩
  have hsame : a.isFolder = b.isFolder ∧ b.isFolder = c.isFolder := by
    have h := hab.1
    have h' := hbc.1
    revert h h' hac
    cases a.isFolder <;> cases b.isFolder <;> cases c.isFolder <;> simp
  exact List.le_trans (α := Char) (hab.2 hsame.1) (hbc.2 hsame.2)

lemma inOrder_total (a b : FileNode) : InOrder a b ∨ InOrder b a := by
  have hnames := List.le_total (α := Char) (Text.lower a.name.toList) (Text.lower b.name.toList)
  by_cases hsame : a.isFolder = b.isFolder
  · exact hnames.imp (fun h => ⟨fun hb => hsame.trans hb, fun _ => h⟩)
      fun h => ⟨fun ha => hsame.symm.trans ha, fun _ => h⟩
  · unfold InOrder
    revert hsame
    cases a.isFolder <;> cases b.isFolder <;> simp

lemma sortedEach_eq (ns : List FileNode) : sortedEach ns = ns.map sorted := by
  induction ns with
  | nil => rw [sortedEach, List.map_nil]
  | cons n ns ih => rw [sortedEach, ih, List.map_cons]

lemma sorted_eq (n : FileNode) :
    n.sorted = { n with children := (n.children.map sorted).mergeSort precedes } := by
  cases n
  rw [sorted, sortedEach_eq]

lemma children_sorted (n : FileNode) : n.sorted.children.Pairwise InOrder := by
  rw [sorted_eq]
  refine (List.pairwise_mergeSort (fun a b c hab hbc => ?_) (fun a b => ?_) _).imp precedes_iff.1
  · exact precedes_iff.2 ((precedes_iff.1 hab).trans (precedes_iff.1 hbc))
  · rw [Bool.or_eq_true, precedes_iff, precedes_iff]
    exact inOrder_total a b

/-- **Putting the folders in order leaves every node where it is.** -/
theorem occurrences_sorted (n : FileNode) :
    n.sorted.occurrences.Perm (n.occurrences.map (Prod.map id sorted)) := by
  induction n using ind with
  | node name path isFolder children ih =>
    have hname : ∀ c : FileNode, c.sorted.name = c.name := fun c => by rw [sorted_eq]
    rw [occurrences_eq, occurrences_eq ⟨name, path, isFolder, children⟩, List.map_cons]
    refine .cons _ ?_
    rw [sorted_eq, List.map_flatMap]
    refine ((List.mergeSort_perm _ _).flatMap_right _).trans ?_
    rw [List.flatMap_map]
    refine List.Perm.flatMap_left _ fun c hc => ?_
    rw [hname, List.map_map]
    refine ((ih c hc).map _).trans ?_
    rw [List.map_map]
    rfl

end ScriptedNotes.FileNode
