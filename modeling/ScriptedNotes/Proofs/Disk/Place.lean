import ScriptedNotes.Disk.Effect
import ScriptedNotes.Proofs.Workspace.Lexical

/-!
Where paths lead on a disk. A path leads to one position, its place, or nowhere; which place it is
can be read off its parts (`target_name`, `locate_eq`), and a path that is strictly below another
one has its place further in (`StrictlyBelow.place`). A path that leads through folders all the way
is found, however it is written (`makeFolder_of_enters`).
-/

namespace ScriptedNotes

/-- The position that a part leads to from another one. -/
def Position.onto (position : Position) : Path.Part → Position
  | .root => []
  | .here => position
  | .up => position.dropLast
  | .name s => position ++ [s]

namespace Path

variable {p root : Path} {current position : Position}

/-- The position that the parts of a path lead to. -/
def place (current : Position) (p : Path) : Position :=
  p.parts.foldl Position.onto current

lemma onto_reverse (current : Position) (stack : List Part) (part : Part) :
    (part.onto stack).reverse.foldl Position.onto current =
      (stack.reverse.foldl Position.onto current).onto part := by
  cases part with
  | root => rfl
  | here => rfl
  | name s => simp [Part.onto]
  | up =>
    cases stack with
    | nil => rfl
    | cons last rest => cases last <;> simp [Part.onto, Position.onto]

/-- Detours lead nowhere else. -/
lemma place_eq_normal (current : Position) (p : Path) :
    p.place current = p.normal.foldl Position.onto current := by
  have hwalk : ∀ parts stack, (walk stack parts).reverse.foldl Position.onto current =
      parts.foldl Position.onto (stack.reverse.foldl Position.onto current) := by
    intro parts
    induction parts with
    | nil => exact fun _ => rfl
    | cons part rest ih =>
      intro stack
      show (walk (part.onto stack) rest).reverse.foldl Position.onto current = _
      rw [List.foldl_cons, ih, onto_reverse]
  exact (hwalk p.parts []).symm

lemma foldl_onto_names (position : Position) (names : List String) :
    (names.map Part.name).foldl Position.onto position = position ++ names := by
  induction names generalizing position with
  | nil => simp
  | cons name rest ih =>
    rw [List.map_cons, List.foldl_cons, ih]
    simp [Position.onto]

/-- **A path strictly below another one has its place further in.** -/
theorem StrictlyBelow.place (h : p.StrictlyBelow root) (current : Position) :
    ∃ names, names ≠ [] ∧ p.place current = root.place current ++ names := by
  obtain ⟨names, hnames, hnormal⟩ := h
  refine ⟨names, hnames, ?_⟩
  rw [place_eq_normal, place_eq_normal, hnormal, List.foldl_append, foldl_onto_names]

end Path

namespace Disk

open ScriptedNotes.Path

variable {d d' : Disk} {p : Path} {position q folder : Position} {pieces : List (List Char)}
  {s : String}

/-! ### Places -/

/-- Steps that succeed, one after the other. -/
lemma ok_of_bind {ε α β : Type} {x : Except ε α} {f : α → Except ε β} {b : β}
    (h : x >>= f = .ok b) : ∃ a, x = .ok a ∧ f a = .ok b := by
  cases x with
  | error e => cases h
  | ok a => exact ⟨a, rfl, h⟩

/-- The place of a path is reached by its pieces. -/
lemma place_eq_pieces (d : Disk) (p : Path) :
    p.place d.current = (innerParts p.pieces).foldl Position.onto (d.start p) := by
  unfold place start
  cases habsolute : p.isAbsolute with
  | true =>
    rw [parts_of_absolute habsolute]
    rfl
  | false => rcases parts_of_relative habsolute with hparts | hparts <;> rw [hparts] <;> rfl

lemma innerParts_cons (piece : List Char) (rest : List (List Char)) :
    innerParts (piece :: rest) = (innerPart? piece).toList ++ innerParts rest := by
  unfold innerParts
  rw [List.filterMap_cons]
  cases innerPart? piece <;> rfl

/-- Pieces are followed to the position that they lead to. -/
lemma follow_eq (h : d.follow position pieces = .ok q) :
    q = (innerParts pieces).foldl Position.onto position := by
  induction pieces generalizing position with
  | nil =>
    cases h
    rfl
  | cons piece rest ih =>
    rw [innerParts_cons]
    unfold follow at h
    unfold innerPart?
    split at h
    · cases h
    · cases h
    · dsimp only at h
      split_ifs at h ⊢ <;> exact ih h

/-- What is located stands where the pieces are followed to. -/
lemma locate_ok {n : Node} (h : d.locate p = .ok (q, n)) :
    d.follow (d.start p) p.pieces = .ok q ∧ d.tree.at? q = some n := by
  unfold locate at h
  split at h
  · cases h
  · obtain ⟨position, hfollow, h⟩ := ok_of_bind h
    split at h
    · next hnode =>
      cases h
      exact ⟨hfollow, hnode⟩
    · cases h

lemma locate_eq {n : Node} (h : d.locate p = .ok (q, n)) : q = p.place d.current :=
  (follow_eq (locate_ok h).1).trans (place_eq_pieces d p).symm

lemma splitEnding_eq {before : List (List Char)} {last : List Char} {slashed : Bool}
    (h : splitEnding pieces = some (before, last, slashed)) :
    last ≠ [] ∧ innerParts pieces = innerParts (before ++ [last]) := by
  unfold splitEnding at h
  have hhead := List.head?_dropWhile_not (·.isEmpty) pieces.reverse
  have hsplit : pieces.reverse = pieces.reverse.takeWhile (·.isEmpty) ++
      pieces.reverse.dropWhile (·.isEmpty) := List.takeWhile_append_dropWhile.symm
  split at h
  · cases h
  · next last' before' hdrop =>
    cases h
    rw [hdrop] at hhead hsplit
    refine ⟨by simpa using hhead, ?_⟩
    have hempty : innerParts (pieces.reverse.takeWhile (·.isEmpty)).reverse = [] := by
      refine innerParts_of_idle fun piece hpiece => ?_
      have hnil := List.all_eq_true.1 List.all_takeWhile piece (List.mem_reverse.1 hpiece)
      rw [List.isEmpty_iff.1 hnil]
      rfl
    have hpieces := congrArg List.reverse hsplit
    rw [List.reverse_reverse, List.reverse_append, List.reverse_cons] at hpieces
    rw [hpieces, innerParts_append, hempty, List.append_nil]

/-- A call that names an entry of a folder is about the place of its path. -/
lemma target_name {slashed : Bool} (h : d.target p = .ok (folder, .name s slashed)) :
    folder ++ [s] = p.place d.current := by
  unfold target at h
  split at h
  · cases h
  · split at h
    · cases h
    · next before last slashed' hending =>
      obtain ⟨hlast, hpieces⟩ := splitEnding_eq hending
      obtain ⟨position, hfollow, h⟩ := ok_of_bind h
      have hposition := follow_eq hfollow
      rw [innerParts_append] at hposition
      split_ifs at h with hdot hdots
      · cases h
      · cases h
      · cases h
        have hpart : innerParts [last] = [.name (.ofList last)] := by
          simp [innerParts, innerPart?, hlast, hdot, hdots]
        have hstay : innerParts [['.']] = [] := rfl
        rw [hstay, List.append_nil] at hposition
        rw [place_eq_pieces, hpieces, innerParts_append, hpart, List.foldl_append, ← hposition]
        rfl

/-! ### Folders all the way -/

/-- There is a folder at a position. -/
def FolderAt (d : Disk) (position : Position) : Prop :=
  ∃ entries, d.tree.at? position = some (.folder entries)

/-- Each of the parts leads on from a folder to another one, and none of the names is too long. -/
def Enters (d : Disk) : Position → List Part → Prop
  | position, [] => d.FolderAt position
  | position, part :: rest =>
    d.FolderAt position ∧ (∀ s, part = .name s → s.utf8ByteSize ≤ longestName) ∧
      d.Enters (position.onto part) rest

section

variable {parts more : List Part}

lemma Enters.start (h : d.Enters position parts) : d.FolderAt position := by
  cases parts with
  | nil => exact h
  | cons part rest => exact h.1

lemma Enters.stop (h : d.Enters position parts) :
    d.FolderAt (parts.foldl Position.onto position) := by
  induction parts generalizing position with
  | nil => exact h
  | cons part rest ih => exact ih h.2.2

lemma Enters.of_append (h : d.Enters position (parts ++ more)) : d.Enters position parts := by
  induction parts generalizing position with
  | nil => exact h.start
  | cons part rest ih => exact ⟨h.1, h.2.1, ih h.2.2⟩

end

/-- Pieces that are followed to a folder lead through folders. -/
lemma enters_of_follow (h : d.follow position pieces = .ok q) (hq : d.FolderAt q) :
    d.Enters position (innerParts pieces) := by
  induction pieces generalizing position with
  | nil =>
    cases h
    exact hq
  | cons piece rest ih =>
    rw [innerParts_cons]
    unfold follow at h
    unfold innerPart?
    split at h
    · cases h
    · cases h
    · next entries hfolder =>
      dsimp only at h
      split_ifs at h with hidle hup hlong
      · rw [if_pos hidle]
        exact ih h
      · rw [if_neg hidle, if_pos hup]
        exact ⟨⟨entries, hfolder⟩, fun s hs => (by cases hs), ih h⟩
      · rw [if_neg hidle, if_neg hup]
        refine ⟨⟨entries, hfolder⟩, fun s hs => ?_, ih h⟩
        cases hs
        exact Nat.le_of_not_lt hlong

lemma enters_of_locate {entries : List (String × Node)}
    (h : d.locate p = .ok (q, .folder entries)) : d.Enters (d.start p) (innerParts p.pieces) :=
  enters_of_follow (locate_ok h).1 ⟨entries, (locate_ok h).2⟩

/-- Pieces that lead through folders are followed. -/
lemma follow_of_enters (h : d.Enters position (innerParts pieces)) :
    ∃ q, d.follow position pieces = .ok q := by
  induction pieces generalizing position with
  | nil => exact ⟨position, rfl⟩
  | cons piece rest ih =>
    rw [innerParts_cons] at h
    obtain ⟨entries, hfolder⟩ := h.start
    unfold follow
    rw [hfolder]
    unfold innerPart? at h
    dsimp only
    split_ifs at h ⊢ with hidle hup hlong
    · exact ih h
    · exact ih h.2.2
    · exact absurd hlong (Nat.not_lt.2 (h.2.1 _ rfl))
    · exact ih h.2.2

/-- Paths of the same parts start at the same folder, and lead on by the same parts. -/
lemma start_eq_of_parts {p p' : Path} (d : Disk) (h : p.parts = p'.parts) :
    d.start p = d.start p' ∧ innerParts p.pieces = innerParts p'.pieces := by
  have hroot : ∀ {p p' : Path}, p.isAbsolute = true → p'.isAbsolute = false →
      p.parts ≠ p'.parts := by
    intro p p' habsolute hrelative he
    rw [parts_of_absolute habsolute] at he
    rcases parts_of_relative hrelative with hparts | hparts <;> rw [hparts] at he
    · exact root_not_mem_innerParts _ (he ▸ List.mem_cons_self)
    · cases he
  unfold start
  cases hp : p.isAbsolute <;> cases hp' : p'.isAbsolute
  · refine ⟨rfl, ?_⟩
    have hhere := fun pieces => here_not_mem_innerParts pieces
    rcases parts_of_relative hp with hparts | hparts <;>
      rcases parts_of_relative hp' with hparts' | hparts' <;> rw [hparts, hparts'] at h
    · exact h
    · exact (hhere _ (h ▸ List.mem_cons_self)).elim
    · exact (hhere _ (h ▸ List.mem_cons_self)).elim
    · exact (List.cons.inj h).2
  · exact (hroot hp' hp h.symm).elim
  · exact (hroot hp hp' h).elim
  · rw [parts_of_absolute hp, parts_of_absolute hp'] at h
    exact ⟨rfl, (List.cons.inj h).2⟩

/-- The folder in which the last piece of a path is looked for is there, if the path leads through
folders. -/
lemma target_of_enters (hmalformed : malformed? p = none)
    (h : d.Enters (d.start p) (innerParts p.pieces)) :
    ∃ folder ending, d.target p = .ok (folder, ending) ∧
      ∀ s slashed, ending = .name s slashed → d.FolderAt (folder ++ [s]) := by
  unfold target
  rw [hmalformed]
  cases hending : splitEnding p.pieces with
  | none => exact ⟨[], .root, rfl, fun _ _ he => by cases he⟩
  | some ending =>
    obtain ⟨before, last, slashed⟩ := ending
    obtain ⟨hlast, hpieces⟩ := splitEnding_eq hending
    rw [hpieces, innerParts_append] at h
    have hstay : innerParts (before ++ [['.']]) = innerParts before := by
      rw [innerParts_append]
      exact List.append_nil _
    obtain ⟨folder, hfollow⟩ := follow_of_enters (hstay ▸ h.of_append)
    have hfolder := follow_eq hfollow
    rw [hstay] at hfolder
    dsimp only
    rw [hfollow]
    by_cases hdot : last = ['.']
    · exact ⟨folder, .dot, if_pos hdot, fun _ _ he => by cases he⟩
    · by_cases hdots : last = ['.', '.']
      · exact ⟨folder, .dots, (if_neg hdot).trans (if_pos hdots), fun _ _ he => by cases he⟩
      · refine ⟨folder, .name (.ofList last) slashed, (if_neg hdot).trans (if_neg hdots),
          fun s slashed' he => ?_⟩
        cases he
        have hpart : innerParts [last] = [.name (.ofList last)] := by
          simp [innerParts, innerPart?, hlast, hdot, hdots]
        have hthere := h.stop
        rw [hpart, List.foldl_append, ← hfolder] at hthere
        exact hthere

/-- Where a folder is, none is made, and it is not missed. -/
lemma makeFolder_of_enters (htext : p.text ≠ "")
    (h : d.Enters (d.start p) (innerParts p.pieces)) :
    ∃ fault, d.makeFolder p = .error fault ∧ fault ≠ .notFound := by
  cases hmalformed : malformed? p with
  | some fault =>
    refine ⟨fault, by simp only [makeFolder, target, hmalformed]; rfl, ?_⟩
    rintro rfl
    unfold malformed? at hmalformed
    split_ifs at hmalformed with hnul hempty
    · cases hmalformed
    · exact htext (String.isEmpty_iff.1 hempty)
    · cases hmalformed
  | none =>
    obtain ⟨folder, ending, htarget, hthere⟩ := target_of_enters hmalformed h
    unfold makeFolder
    rw [htarget]
    cases ending with
    | name s slashed =>
      obtain ⟨entries, hentries⟩ := hthere s slashed rfl
      by_cases hlong : longestName < s.utf8ByteSize
      · have hentry : d.entry? folder s = .error .nameTooLong := if_pos hlong
        exact ⟨.nameTooLong, by simp only [bind, Except.bind, hentry], by decide⟩
      · have hentry : d.entry? folder s = .ok (some (.folder entries)) := by
          unfold entry?
          rw [if_neg hlong, hentries]
        exact ⟨.alreadyThere, by simp only [bind, Except.bind, hentry]; rfl, by decide⟩
    | dot => exact ⟨.alreadyThere, rfl, by decide⟩
    | dots => exact ⟨.alreadyThere, rfl, by decide⟩
    | root => exact ⟨.alreadyThere, rfl, by decide⟩

end Disk

end ScriptedNotes
