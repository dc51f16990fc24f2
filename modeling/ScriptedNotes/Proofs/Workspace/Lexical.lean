import Mathlib.Tactic.Common
import ScriptedNotes.Disk.Path
import ScriptedNotes.Proofs.Text.Scanning

/-!
Where paths lead without a look at the disk. The parts of a path are walked from left to right with
the innermost at hand: a name goes in, two dots come out of the last name, and an absolute path
starts over. What is left is the path without detours (`normal`). Joining a path to another walks on
from where that one leads; the parent of a path that ends in a name leads to where the path led
before that name.
-/

namespace ScriptedNotes.Path

/-- Walks one part on. The innermost part comes first. -/
def Part.onto (stack : List Part) : Part → List Part
  | .root => [.root]
  | .here => stack
  | .up =>
    match stack with
    | .name _ :: rest => rest
    | .root :: _ => stack
    | _ => .up :: stack
  | .name s => .name s :: stack

/-- Where parts lead from somewhere. -/
abbrev walk (stack : List Part) (parts : List Part) : List Part :=
  parts.foldl Part.onto stack

/-- The parts of a path without detours. -/
def normal (p : Path) : List Part :=
  (walk [] p.parts).reverse

def Part.name? : Part → Option String
  | .name s => some s
  | .root | .here | .up => none

/-- The names in a path. -/
def names (p : Path) : List String :=
  p.parts.filterMap Part.name?

/-- The path leads from the other one by one or more names further in. -/
def StrictlyBelow (p root : Path) : Prop :=
  ∃ names : List String, names ≠ [] ∧ p.normal = root.normal ++ names.map .name

/-! ### Parts and pieces -/

/-- The parts of the pieces behind a slash. -/
def innerParts (pieces : List (List Char)) : List Part :=
  pieces.filterMap innerPart?

lemma innerParts_append (ps qs : List (List Char)) :
    innerParts (ps ++ qs) = innerParts ps ++ innerParts qs :=
  List.filterMap_append

/-- A piece behind a slash is no part of its own only when it says nothing. -/
lemma innerPart?_cases (piece : List Char) :
    innerPart? piece = none ∨ innerPart? piece = some .up ∨
      innerPart? piece = some (.name (.ofList piece)) := by
  unfold innerPart?
  split
  · exact .inl rfl
  · split
    · exact .inr (.inl rfl)
    · exact .inr (.inr rfl)

/-- A text that is no detour is a name. -/
lemma innerParts_name {s : String} (hup : s ≠ "..") (hstay : ¬ (s = "" ∨ s = ".")) :
    innerParts [s.toList] = [.name s] := by
  have hempty : s.toList ≠ [] := fun h => hstay (.inl (String.toList_eq_nil_iff.1 h))
  have hdot : s.toList ≠ ['.'] := fun h => hstay (.inr (String.toList_inj.1 h))
  have hdots : s.toList ≠ ['.', '.'] := fun h => hup (String.toList_inj.1 h)
  have hname : innerPart? s.toList = some (.name s) := by
    unfold innerPart?
    rw [if_neg (by simp [hempty, hdot]), if_neg hdots, String.ofList_toList]
  simp [innerParts, hname]

/-- The parts of a list of pieces. -/
def partsOf : List (List Char) → List Part
  | [] => []
  | [] :: second :: rest => .root :: innerParts (second :: rest)
  | first :: rest => relativeParts first rest

lemma parts_eq (p : Path) : p.parts = partsOf p.pieces := rfl

lemma relativeParts_eq (first : List Char) (rest : List (List Char)) :
    relativeParts first rest = relativeParts first [] ++ innerParts rest := by
  unfold relativeParts
  split
  · rfl
  · exact innerParts_append [first] rest

/-- A dot in front is a part of its own, and the other parts are those of the pieces. -/
lemma relativeParts_cases (first : List Char) (rest : List (List Char)) :
    relativeParts first rest = innerParts (first :: rest) ∨
      relativeParts first rest = .here :: innerParts (first :: rest) := by
  unfold relativeParts
  split
  · next hfirst =>
    subst hfirst
    exact .inr rfl
  · exact .inl rfl

/-- More pieces are more parts, except behind the empty path. -/
lemma partsOf_append {first : List Char} {rest more : List (List Char)} (hmore : more ≠ []) :
    partsOf (first :: rest ++ more) =
      partsOf (first :: rest ++ [[]]) ++ innerParts more := by
  obtain ⟨second, others, rfl⟩ := List.exists_cons_of_ne_nil hmore
  have hempty : innerParts [[]] = [] := rfl
  cases first with
  | nil =>
    cases rest with
    | nil => rfl
    | cons next rest =>
      show Part.root :: innerParts (next :: rest ++ second :: others) =
        (Part.root :: innerParts (next :: rest ++ [[]])) ++ innerParts (second :: others)
      rw [innerParts_append, innerParts_append, hempty, List.append_nil]
      rfl
  | cons c cs =>
    show relativeParts (c :: cs) (rest ++ second :: others) =
      relativeParts (c :: cs) (rest ++ [[]]) ++ innerParts (second :: others)
    rw [relativeParts_eq, relativeParts_eq (c :: cs) (rest ++ [[]]), innerParts_append,
      innerParts_append, hempty, List.append_nil, List.append_assoc]

/-- A slash at the end of a path is no part, unless it is the only one. -/
lemma partsOf_slash {pieces : List (List Char)} (hnil : pieces ≠ []) (hempty : pieces ≠ [[]]) :
    partsOf (pieces ++ [[]]) = partsOf pieces := by
  have hnone : innerParts [[]] = [] := rfl
  cases pieces with
  | nil => exact absurd rfl hnil
  | cons first rest =>
    cases first with
    | nil =>
      cases rest with
      | nil => exact absurd rfl hempty
      | cons next rest =>
        show Part.root :: innerParts (next :: rest ++ [[]]) = Part.root :: innerParts (next :: rest)
        rw [innerParts_append, hnone, List.append_nil]
    | cons c cs =>
      show relativeParts (c :: cs) (rest ++ [[]]) = relativeParts (c :: cs) rest
      rw [relativeParts_eq, relativeParts_eq (c :: cs) rest, innerParts_append, hnone,
        List.append_nil]

/-! ### Joining -/

lemma pieces_ne_nil (p : Path) : p.pieces ≠ [] :=
  List.splitOn_ne_nil _ _

lemma not_isAbsolute_iff {p : Path} : p.isAbsolute = false ↔ p.text.toList.head? ≠ some '/' := by
  unfold isAbsolute
  exact decide_eq_false_iff_not

lemma parts_of_relative {p : Path} (h : p.isAbsolute = false) :
    p.parts = innerParts p.pieces ∨ p.parts = .here :: innerParts p.pieces := by
  have hhead := not_isAbsolute_iff.1 h
  rw [parts_eq]
  unfold pieces
  cases htext : p.text.toList with
  | nil => exact .inl rfl
  | cons c cs =>
    rw [htext, List.head?_cons] at hhead
    have hc : (c == '/') = false := by
      simpa using hhead
    rw [List.splitOn_cons_eq_if_modifyHead, if_neg (by simp [hc])]
    cases hrest : cs.splitOn '/' with
    | nil => exact absurd hrest (List.splitOn_ne_nil _ _)
    | cons first rest => exact relativeParts_cases (c :: first) rest

lemma parts_of_absolute {p : Path} (h : p.isAbsolute = true) :
    p.parts = .root :: innerParts p.pieces := by
  have hhead : p.text.toList.head? = some '/' := by
    unfold isAbsolute at h
    simpa using h
  rw [parts_eq]
  unfold pieces
  cases htext : p.text.toList with
  | nil =>
    rw [htext] at hhead
    cases hhead
  | cons c cs =>
    rw [htext, List.head?_cons] at hhead
    obtain rfl : c = '/' := Option.some.inj hhead
    rw [List.splitOn_cons_eq_if_modifyHead, if_pos (by simp)]
    obtain ⟨second, rest, hrest⟩ := List.exists_cons_of_ne_nil (List.splitOn_ne_nil '/' cs)
    rw [hrest]
    rfl

/-- A path that does not begin with a slash leads where its pieces lead: a dot in front leads
nowhere. -/
lemma walk_parts_of_relative {p : Path} (h : p.isAbsolute = false) (stack : List Part) :
    walk stack p.parts = walk stack (innerParts p.pieces) := by
  rcases parts_of_relative h with hparts | hparts <;> rw [hparts]
  rfl

/-- The pieces of a joined path. A slash at the end of the first is not written twice. -/
lemma pieces_join {p next : Path} (h : next.isAbsolute = false) (hp : p.text ≠ "") :
    ∃ base, (p.pieces = base ∨ p.pieces = base ++ [[]]) ∧ base ≠ [] ∧
      (p.join next).pieces = base ++ next.pieces := by
  have hempty : p.text.isEmpty = false := by
    simpa using hp
  unfold join
  rw [h]
  by_cases hslash : p.text.toList.getLast? = some '/'
  · obtain ⟨base, hbase⟩ := List.getLast?_eq_some_iff.1 hslash
    have hpieces : p.pieces = base.splitOn '/' ++ [[]] := by
      unfold pieces
      rw [hbase, List.splitOn_append_cons_self, List.splitOn_nil]
    refine ⟨base.splitOn '/', .inr hpieces, List.splitOn_ne_nil _ _, ?_⟩
    rw [if_neg Bool.false_ne_true, if_pos (Or.inr hslash)]
    unfold pieces
    rw [String.toList_append, hbase, List.append_assoc]
    exact List.splitOn_append_cons_self base next.text.toList
  · refine ⟨p.pieces, .inl rfl, pieces_ne_nil p, ?_⟩
    rw [if_neg Bool.false_ne_true, if_neg (by simp [hempty, hslash])]
    unfold pieces
    rw [String.toList_append, String.toList_append, List.append_assoc]
    exact List.splitOn_append_cons_self p.text.toList next.text.toList

lemma pieces_ne_empty {p : Path} (hp : p.text ≠ "") : p.pieces ≠ [[]] := by
  intro hpieces
  have htext : p.text.toList = [] := by
    calc p.text.toList
        = List.intercalate ['/'] p.pieces := (List.intercalate_splitOn '/').symm
      _ = [] := by
        rw [hpieces]
        rfl
  exact hp (String.toList_eq_nil_iff.1 htext)

/-- The parts of a joined path. -/
lemma parts_join {p next : Path} (h : next.isAbsolute = false) (hp : p.text ≠ "") :
    (p.join next).parts = p.parts ++ innerParts next.pieces := by
  obtain ⟨base, hpieces, hbase, hjoin⟩ := pieces_join h hp
  have hparts : partsOf (base ++ [[]]) = p.parts := by
    rcases hpieces with hpieces | hpieces
    · rw [parts_eq, hpieces]
      exact partsOf_slash hbase (hpieces ▸ pieces_ne_empty hp)
    · rw [parts_eq, hpieces]
  rw [parts_eq, hjoin, ← hparts]
  obtain ⟨first, rest, rfl⟩ := List.exists_cons_of_ne_nil hbase
  exact partsOf_append (pieces_ne_nil next)

lemma join_empty {p next : Path} (hp : p.text = "") : p.join next = next := by
  unfold join
  rw [hp]
  split
  · rfl
  · simp

/-- A joined path walks on from where the first one leads. -/
theorem walk_join {p next : Path} (h : next.isAbsolute = false) :
    walk [] (p.join next).parts = walk (walk [] p.parts) (innerParts next.pieces) := by
  by_cases hp : p.text = ""
  · have hparts : p.parts = [] := by
      obtain ⟨text⟩ := p
      subst hp
      rfl
    rw [join_empty hp, hparts]
    exact walk_parts_of_relative h []
  · rw [parts_join h hp]
    exact List.foldl_append

/-! ### Paths without detours -/

/-- A path that leads in from where it starts, or stays there. -/
def LeadsIn (p : Path) : Prop :=
  ∀ part ∈ p.parts, part = .here ∨ ∃ s, part = .name s

section

variable {p : Path}

lemma LeadsIn.not_isAbsolute (h : p.LeadsIn) : p.isAbsolute = false := by
  by_contra habsolute
  rw [Bool.not_eq_false] at habsolute
  have hroot : Part.root ∈ p.parts := by
    rw [parts_of_absolute habsolute]
    exact List.mem_cons_self
  rcases h _ hroot with hroot | ⟨s, hroot⟩ <;> cases hroot

/-- Parts that lead in add their names. -/
lemma walk_of_leadsIn : ∀ (parts : List Part) (stack : List Part),
    (∀ part ∈ parts, part = .here ∨ ∃ s, part = .name s) →
    walk stack parts = ((parts.filterMap Part.name?).map Part.name).reverse ++ stack := by
  intro parts
  induction parts with
  | nil =>
    intro stack _
    rfl
  | cons part rest ih =>
    intro stack h
    obtain ⟨hpart, hrest⟩ := List.forall_mem_cons.1 h
    rcases hpart with rfl | ⟨s, rfl⟩
    · exact ih stack hrest
    · show walk (.name s :: stack) rest = _
      rw [ih (.name s :: stack) hrest]
      simp [Part.name?]

/-- **A path that leads in leads below the path that it is joined to**, by its names. -/
theorem walk_join_of_leadsIn {root : Path} (h : p.LeadsIn) :
    walk [] (root.join p).parts = (p.names.map Part.name).reverse ++ walk [] root.parts := by
  have hrelative := h.not_isAbsolute
  rw [walk_join hrelative, ← walk_parts_of_relative hrelative]
  exact walk_of_leadsIn p.parts _ h

lemma normal_join {root : Path} (h : p.LeadsIn) :
    (root.join p).normal = root.normal ++ p.names.map .name := by
  unfold normal
  rw [walk_join_of_leadsIn h, List.reverse_append, List.reverse_reverse]

lemma here_not_mem_innerParts (pieces : List (List Char)) : Part.here ∉ innerParts pieces := by
  intro hmem
  obtain ⟨piece, -, hpiece⟩ := List.mem_filterMap.1 hmem
  rcases innerPart?_cases piece with h | h | h <;> rw [h] at hpiece <;> cases hpiece

lemma root_not_mem_innerParts (pieces : List (List Char)) : Part.root ∉ innerParts pieces := by
  intro hmem
  obtain ⟨piece, -, hpiece⟩ := List.mem_filterMap.1 hmem
  rcases innerPart?_cases piece with h | h | h <;> rw [h] at hpiece <;> cases hpiece

/-- The pieces of a path that leads in say nothing or are names. -/
lemma LeadsIn.innerParts_eq (h : p.LeadsIn) : innerParts p.pieces = p.names.map .name := by
  have hsame : p.names = (innerParts p.pieces).filterMap Part.name? ∧
      ∀ part ∈ innerParts p.pieces, part ∈ p.parts := by
    unfold names
    rcases parts_of_relative h.not_isAbsolute with hparts | hparts <;> rw [hparts]
    · exact ⟨rfl, fun _ hpart => hpart⟩
    · exact ⟨rfl, fun _ hpart => List.mem_cons_of_mem _ hpart⟩
  rw [hsame.1, List.map_filterMap]
  conv_lhs => rw [← List.filterMap_some (l := innerParts p.pieces)]
  refine List.filterMap_congr fun part hpart => ?_
  rcases h part (hsame.2 part hpart) with rfl | ⟨s, rfl⟩
  · exact (here_not_mem_innerParts _ hpart).elim
  · rfl

/-- The parts of a path that leads in from another one. -/
lemma LeadsIn.parts_join {root : Path} (h : p.LeadsIn) (hroot : root.text ≠ "") :
    (root.join p).parts = root.parts ++ p.names.map .name := by
  rw [Path.parts_join h.not_isAbsolute hroot, h.innerParts_eq]

/-- A path leads in when it does not begin with a slash and no piece is two dots. -/
lemma leadsIn_iff : p.LeadsIn ↔ p.isAbsolute = false ∧ Part.up ∉ innerParts p.pieces := by
  constructor
  · intro h
    refine ⟨h.not_isAbsolute, fun hup => ?_⟩
    rw [h.innerParts_eq] at hup
    obtain ⟨s, -, hs⟩ := List.mem_map.1 hup
    cases hs
  · rintro ⟨hrelative, hup⟩ part hpart
    have hinner : part = .here ∨ part ∈ innerParts p.pieces := by
      rcases parts_of_relative hrelative with hparts | hparts <;> rw [hparts] at hpart
      · exact .inr hpart
      · exact List.mem_cons.1 hpart
    refine hinner.imp_right fun hmem => ?_
    obtain ⟨piece, -, hpiece⟩ := List.mem_filterMap.1 hmem
    rcases innerPart?_cases piece with h | h | h <;> rw [h] at hpiece <;> cases hpiece
    · exact (hup hmem).elim
    · exact ⟨_, rfl⟩

/-- What is written behind a path belongs to its last piece. -/
lemma pieces_append {ending : String} (p : Path) (hslash : '/' ∉ ending.toList) :
    ∃ before last, p.pieces = before ++ [last] ∧
      (Path.mk (p.text ++ ending)).pieces = before ++ [last ++ ending.toList] := by
  unfold pieces
  rw [String.toList_append]
  by_cases hmem : '/' ∈ p.text.toList
  · obtain ⟨last, front, htext, hlast⟩ := List.eq_append_cons_of_mem (List.mem_reverse.2 hmem)
    have hback : p.text.toList = front.reverse ++ '/' :: last.reverse := by
      rw [← List.reverse_reverse p.text.toList, htext]
      simp
    have hfirst : '/' ∉ last.reverse := fun h => hlast (List.mem_reverse.1 h)
    have hboth : '/' ∉ last.reverse ++ ending.toList := fun h =>
      (List.mem_append.1 h).elim hfirst hslash
    refine ⟨front.reverse.splitOn '/', last.reverse, ?_, ?_⟩
    · rw [hback, List.splitOn_append_cons_self, List.splitOn_eq_singleton hfirst]
    · rw [hback, List.append_assoc, List.cons_append, List.splitOn_append_cons_self,
        List.splitOn_eq_singleton hboth]
  · refine ⟨[], p.text.toList, List.splitOn_eq_singleton hmem, List.splitOn_eq_singleton ?_⟩
    exact fun h => (List.mem_append.1 h).elim hmem hslash

/-- A path still leads in with an ending behind it that is more than dots. The ending is that of the
last name, which may have been missing before. -/
lemma LeadsIn.append {ending : String} (h : p.LeadsIn) (hslash : '/' ∉ ending.toList)
    (hlong : 2 < ending.toList.length) :
    (Path.mk (p.text ++ ending)).LeadsIn ∧
      ∃ front last, (Path.mk (p.text ++ ending)).names = front ++ [last ++ ending] ∧
        (p.names = front ∨ p.names = front ++ [last]) := by
  obtain ⟨before, last, hpieces, hmore⟩ := pieces_append p hslash
  obtain ⟨hrelative, hup⟩ := leadsIn_iff.1 h
  have hshort : ∀ s : String, s.toList.length ≤ 2 → String.ofList last ++ ending ≠ s := by
    rintro s hs rfl
    rw [String.toList_append, List.length_append] at hs
    omega
  have hlast : innerParts [last ++ ending.toList] = [.name (.ofList last ++ ending)] := by
    have hname := innerParts_name (hshort ".." (by decide))
      (not_or.2 ⟨hshort "" (by decide), hshort "." (by decide)⟩)
    rwa [String.toList_append, String.toList_ofList] at hname
  have hinner : innerParts (Path.mk (p.text ++ ending)).pieces =
      innerParts before ++ [.name (.ofList last ++ ending)] := by
    rw [hmore, innerParts_append, hlast]
  rw [hpieces, innerParts_append] at hup
  have hleads : (Path.mk (p.text ++ ending)).LeadsIn := by
    refine leadsIn_iff.2 ⟨?_, ?_⟩
    · rw [not_isAbsolute_iff] at hrelative ⊢
      rw [String.toList_append, List.head?_append]
      cases hhead : p.text.toList.head? with
      | some c => rwa [hhead] at hrelative
      | none => exact fun hslash' => hslash (List.mem_of_mem_head? hslash')
    · rw [hinner]
      rintro hmem
      rcases List.mem_append.1 hmem with hmem | hmem
      · exact hup (List.mem_append_left _ hmem)
      · cases List.mem_singleton.1 hmem
  have hnames : ∀ {p : Path}, p.LeadsIn → p.names = (innerParts p.pieces).filterMap Part.name? := by
    intro p hp
    rw [hp.innerParts_eq, List.filterMap_map]
    exact (List.filterMap_some).symm
  refine ⟨hleads, (innerParts before).filterMap Part.name?, .ofList last, ?_, ?_⟩
  · rw [hnames hleads, hinner, List.filterMap_append]
    rfl
  · rw [hnames h, hpieces, innerParts_append, List.filterMap_append]
    have hpart : innerParts [last] = (innerPart? last).toList := by
      cases hcase : innerPart? last <;> simp [innerParts, hcase]
    rw [hpart]
    rcases innerPart?_cases last with hcase | hcase | hcase
    · exact .inl (by simp [hcase])
    · rw [hpart, hcase] at hup
      exact (hup (List.mem_append_right _ List.mem_cons_self)).elim
    · exact .inr (by simp [hcase, Part.name?])

/-- Only the first part may be a dot. -/
lemma here_not_mem_tail (p : Path) : Part.here ∉ p.parts.tail := by
  have hrelative : ∀ first rest, Part.here ∉ (relativeParts first rest).tail := by
    intro first rest hmem
    unfold relativeParts at hmem
    split at hmem
    · exact here_not_mem_innerParts rest hmem
    · exact here_not_mem_innerParts (first :: rest) (List.mem_of_mem_tail hmem)
  rw [parts_eq]
  unfold partsOf
  split
  · exact List.not_mem_nil
  · exact here_not_mem_innerParts _
  · exact hrelative _ _

lemma fileName?_eq_some_iff {name : String} :
    p.fileName? = some name ↔ p.parts.getLast? = some (.name name) := by
  unfold fileName?
  constructor
  · intro h
    split at h
    · next s hs =>
      cases h
      exact hs
    · cases h
  · intro h
    rw [h]

/-- A path that leads in ends in a name when it has any. -/
lemma fileName?_isSome_iff (h : p.LeadsIn) : p.fileName?.isSome ↔ p.names ≠ [] := by
  have htail := here_not_mem_tail p
  unfold fileName? names
  unfold LeadsIn at h
  generalize p.parts = parts at h htail
  rcases List.eq_nil_or_concat parts with rfl | ⟨front, last, rfl⟩
  · simp
  · rw [List.concat_eq_append] at *
    rw [List.getLast?_concat, List.filterMap_append]
    rcases h last (by simp) with rfl | ⟨s, rfl⟩
    · have hfront : front = [] := by
        by_contra hne
        refine htail ?_
        rw [List.tail_append_of_ne_nil hne]
        simp
      rw [hfront]
      simp [Part.name?]
    · simp [Part.name?]

end

/-! ### The parent of a path -/

section

/-- Whether a piece says nothing. -/
abbrev idle (piece : List Char) : Bool :=
  (innerPart? piece).isNone

lemma innerParts_of_idle {pieces : List (List Char)} (h : ∀ piece ∈ pieces, idle piece = true) :
    innerParts pieces = [] :=
  List.filterMap_eq_nil_iff.2 fun piece hpiece => Option.isNone_iff_eq_none.1 (h piece hpiece)

/-- Pieces that say nothing are dropped from the end. -/
lemma innerParts_dropWhile (backwards : List (List Char)) :
    innerParts (backwards.dropWhile idle).reverse = innerParts backwards.reverse := by
  have hsplit : backwards = backwards.takeWhile idle ++ backwards.dropWhile idle :=
    List.takeWhile_append_dropWhile.symm
  have hidle : innerParts (backwards.takeWhile idle).reverse = [] := by
    refine innerParts_of_idle fun piece hpiece => ?_
    exact List.all_eq_true.1 List.all_takeWhile piece (List.mem_reverse.1 hpiece)
  conv_rhs => rw [hsplit, List.reverse_append, innerParts_append, hidle, List.append_nil]

/-- What is dropped with the last part is no part. -/
lemma innerParts_dropLastPart? (pieces : List (List Char)) :
    (dropLastPart? pieces = none ∧ innerParts pieces = []) ∨
      ∃ before part, dropLastPart? pieces = some before ∧ before ⊆ pieces ∧
        innerParts pieces = innerParts before ++ [part] := by
  have hpieces : innerParts pieces = innerParts (pieces.reverse.dropWhile idle).reverse := by
    rw [innerParts_dropWhile, List.reverse_reverse]
  have hhead := List.head?_dropWhile_not idle pieces.reverse
  cases hdrop : pieces.reverse.dropWhile idle with
  | nil =>
    rw [hdrop] at hpieces
    refine .inl ⟨?_, hpieces⟩
    simp only [dropLastPart?, hdrop]
  | cons last before =>
    rw [hdrop] at hhead
    rw [hdrop, List.reverse_cons, innerParts_append] at hpieces
    obtain ⟨part, hpart⟩ : ∃ part, innerPart? last = some part :=
      Option.isSome_iff_exists.1 (by simpa [idle] using hhead)
    refine .inr ⟨(before.dropWhile idle).reverse, part, ?_, fun piece hpiece => ?_, ?_⟩
    · simp only [dropLastPart?, hdrop]
    · have hmem : piece ∈ pieces.reverse.dropWhile idle := by
        rw [hdrop]
        exact List.mem_cons_of_mem last (List.dropWhile_subset _ (List.mem_reverse.1 hpiece))
      exact List.mem_reverse.1 (List.dropWhile_subset _ hmem)
    · rw [hpieces, innerParts_dropWhile]
      refine congrArg (innerParts before.reverse ++ ·) ?_
      simp [innerParts, hpart]

/-- A piece holds no slash. -/
lemma slash_not_mem_pieces (p : Path) : ∀ piece ∈ p.pieces, '/' ∉ piece :=
  fun _ hpiece => Text.sep_not_mem_of_mem_splitOn hpiece

/-- The pieces of a path that is put together from them. -/
lemma pieces_ofPieces {pieces : List (List Char)} (hne : pieces ≠ [])
    (h : ∀ piece ∈ pieces, '/' ∉ piece) : (ofPieces pieces).pieces = pieces := by
  unfold ofPieces Path.pieces
  rw [String.toList_ofList]
  exact List.splitOn_intercalate '/' h hne

/-- The first piece is the slash in front when it is empty. -/
lemma partsOf_cons {first : List Char} {rest : List (List Char)} (h : first ≠ [] ∨ rest ≠ []) :
    partsOf (first :: rest) =
      (if first = [] then [.root] else relativeParts first []) ++ innerParts rest := by
  cases first with
  | nil =>
    cases rest with
    | nil => simp at h
    | cons second rest => rfl
  | cons c cs => exact relativeParts_eq (c :: cs) rest

/-- The parent of a path has the parts before the last one. -/
theorem parts_of_parent? {p q : Path} (h : p.parent? = some q) :
    ∃ part, p.parts = q.parts ++ [part] := by
  obtain ⟨first, rest, hpieces⟩ := List.exists_cons_of_ne_nil (pieces_ne_nil p)
  have hslash := slash_not_mem_pieces p
  unfold parent? at h
  rw [hpieces] at h hslash
  rcases innerParts_dropLastPart? rest with ⟨hnone, hinner⟩ | ⟨before, part, hbefore, hsub, hinner⟩
  · -- there is no part behind the first piece
    simp only [hnone] at h
    split_ifs at h with hfirst
    cases h
    have hparts : p.parts = relativeParts first [] := by
      rw [parts_eq, hpieces, partsOf_cons (.inl hfirst), if_neg hfirst, hinner, List.append_nil]
    rw [hparts]
    unfold relativeParts
    by_cases hdot : first = ['.']
    · rw [if_pos hdot]
      exact ⟨.here, rfl⟩
    · have hidle : ¬ (first = [] ∨ first = ['.']) := not_or.2 ⟨hfirst, hdot⟩
      rw [if_neg hdot]
      rcases innerPart?_cases first with hpart | hpart | hpart
      · unfold innerPart? at hpart
        rw [if_neg hidle] at hpart
        split_ifs at hpart
      · exact ⟨_, by simp [hpart]; rfl⟩
      · exact ⟨_, by simp [hpart]; rfl⟩
  · have hrest : rest ≠ [] := by
      rintro rfl
      simp [innerParts] at hinner
    have hsubset : ∀ piece ∈ first :: before, '/' ∉ piece := by
      intro piece hpiece
      refine hslash piece ?_
      rcases List.mem_cons.1 hpiece with rfl | hpiece
      · exact List.mem_cons_self
      · exact List.mem_cons_of_mem _ (hsub hpiece)
    have hof : q.parts = (if first = [] then [.root] else relativeParts first []) ++
        innerParts before → p.parts = q.parts ++ [part] := by
      intro hq
      rw [parts_eq, hpieces, partsOf_cons (.inr hrest), hinner, hq, List.append_assoc]
    refine ⟨part, hof ?_⟩
    simp only [hbefore] at h
    cases before with
    | nil =>
      cases h
      by_cases hfirst : first = []
      · rw [if_pos hfirst, if_pos hfirst]
        decide
      · rw [if_neg hfirst, parts_eq, pieces_ofPieces (List.cons_ne_nil _ _) hsubset,
          partsOf_cons (.inl hfirst)]
    | cons second before =>
      cases h
      rw [parts_eq, pieces_ofPieces (List.cons_ne_nil _ _) hsubset,
        partsOf_cons (.inr (List.cons_ne_nil _ _))]

/-- A path without a parent is the root, however it is written, or empty. -/
lemma parts_of_parent?_eq_none {p : Path} (h : p.parent? = none) (htext : p.text ≠ "") :
    p.parts = [.root] := by
  obtain ⟨first, rest, hpieces⟩ := List.exists_cons_of_ne_nil (pieces_ne_nil p)
  have hnot := pieces_ne_empty htext
  unfold parent? at h
  rw [hpieces] at h hnot
  rcases innerParts_dropLastPart? rest with ⟨hnone, hinner⟩ | ⟨before, part, hbefore, -, -⟩
  · simp only [hnone] at h
    have hfirst : first = [] := by
      by_contra hne
      rw [if_neg hne] at h
      cases h
    have hrest : rest ≠ [] := by
      rintro rfl
      exact hnot (by rw [hfirst])
    rw [parts_eq, hpieces, partsOf_cons (.inr hrest), if_pos hfirst, hinner]
    rfl
  · simp only [hbefore] at h
    cases before <;> cases h

/-- The parent of a path that ends in a name has the parts before that name. -/
theorem parts_parent {p : Path} {name : String} (h : p.fileName? = some name) :
    ∃ q, p.parent? = some q ∧ p.parts = q.parts ++ [.name name] := by
  have hlast := fileName?_eq_some_iff.1 h
  cases hparent : p.parent? with
  | none =>
    have htext : p.text ≠ "" := by
      intro htext
      obtain ⟨text⟩ := p
      subst htext
      cases h
    rw [parts_of_parent?_eq_none hparent htext] at hlast
    cases hlast
  | some q =>
    obtain ⟨part, hparts⟩ := parts_of_parent? hparent
    rw [hparts, List.getLast?_concat] at hlast
    exact ⟨q, rfl, by rw [hparts, Option.some.inj hlast]⟩

/-- The parent of a path that ends in names has one of them less. -/
lemma parts_parent_of_names {root p parent : Path} {front : List String} {last : String}
    (hparts : p.parts = root.parts ++ (front ++ [last]).map .name)
    (hparent : p.parent? = some parent) : parent.parts = root.parts ++ front.map .name := by
  have hname : p.fileName? = some last := by
    rw [fileName?_eq_some_iff, hparts]
    simp
  obtain ⟨q, hq, hbefore⟩ := parts_parent hname
  rw [hparent] at hq
  cases hq
  rw [hparts, List.map_append, ← List.append_assoc] at hbefore
  exact (List.append_cancel_right hbefore).symm

/-- Another name at the end of a path is walked to from where the last one was. -/
theorem walk_withFileName {p : Path} {name newName : String} (h : p.fileName? = some name)
    (hslash : '/' ∉ newName.toList) :
    walk [] (p.withFileName newName).parts =
      walk (walk [] p.parts).tail (innerParts [newName.toList]) := by
  obtain ⟨q, hparent, hparts⟩ := parts_parent h
  have hrelative : (Path.mk newName).isAbsolute = false := by
    refine not_isAbsolute_iff.2 fun hhead => hslash ?_
    exact List.mem_of_mem_head? hhead
  have hpieces : (Path.mk newName).pieces = [newName.toList] := List.splitOn_eq_singleton hslash
  have htail : (walk [] p.parts).tail = walk [] q.parts := by
    rw [hparts]
    simp [walk, Part.onto]
  unfold withFileName
  rw [h, hparent, htail, ← hpieces]
  exact walk_join hrelative

end

/-! ### Below a root -/

section

variable {root p : Path} {ns : List String}

lemma strictlyBelow_iff_of_normal (h : p.normal = root.normal ++ ns.map .name) :
    p.StrictlyBelow root ↔ ns ≠ [] := by
  constructor
  · rintro ⟨names, hnames, hp⟩ rfl
    rw [h] at hp
    have hnil := List.append_cancel_left hp
    exact hnames (List.map_eq_nil_iff.1 hnil.symm)
  · intro hns
    exact ⟨ns, hns, h⟩

/-- Two dots at the root come out of it. -/
lemma not_strictlyBelow_of_up (h : walk [] p.parts = Part.onto (walk [] root.parts) .up) :
    ¬ p.StrictlyBelow root := by
  rintro ⟨names, hnames, hp⟩
  unfold normal at hp
  rw [h] at hp
  have hup : ¬ ∃ stack : List Part,
      (Part.up :: stack).reverse = stack.reverse ++ names.map .name := by
    rintro ⟨stack, hstack⟩
    rw [List.reverse_cons] at hstack
    cases names with
    | nil => exact hnames rfl
    | cons name rest => cases List.append_cancel_left hstack
  cases hstack : walk [] root.parts with
  | nil =>
    rw [hstack] at hp
    exact hup ⟨[], hp⟩
  | cons last rest =>
    rw [hstack] at hp
    cases last with
    | name s =>
      have hlength := congrArg List.length hp
      simp [Part.onto] at hlength
    | root => exact hnames (List.map_eq_nil_iff.1 (List.self_eq_append_right.1 hp))
    | here => exact hup ⟨_, hp⟩
    | up => exact hup ⟨_, hp⟩

end

end ScriptedNotes.Path
