import ScriptedNotes.Proofs.Disk.Place
import ScriptedNotes.Proofs.Keyed

/-!
What the calls of a disk change. A call that is carried out leaves all that stands elsewhere than at
the places of its paths, and below them, as it is (`SameBut`).
-/

namespace ScriptedNotes

namespace Node

variable {p q r : Position} {name : String}

/-- The content of a file. -/
def content? : Node → Option Content
  | .file c => some c
  | .folder _ => none

/-- What stands at a position; of a folder only that it is one. -/
def view (n : Node) (q : Position) : Option (Option Content) :=
  (at? q n).map content?

lemma at?_update_append (f : Node → Node) (p r : Position) (n : Node) :
    at? (p ++ r) (update f p n) = ((at? p n).map f).bind (at? r) := by
  rw [at?_append, at?_update_self]

/-- A change at a position is not seen beside it nor above it. -/
lemma view_update_of_not_prefix (f : Node → Node) (h : ¬ p <+: q) (n : Node) :
    (update f p n).view q = n.view q := by
  induction p generalizing q n with
  | nil => exact (h List.nil_prefix).elim
  | cons name rest ih =>
    cases n with
    | file c => rfl
    | folder entries =>
      unfold update
      cases hget : Keyed.get? name entries with
      | none => rfl
      | some child =>
        cases q with
        | nil => rfl
        | cons other q =>
          unfold view at?
          by_cases hname : other = name
          · subst hname
            have hrest : ¬ rest <+: q := fun hprefix =>
              h ((List.prefix_cons_inj other).2 hprefix)
            rw [Keyed.get?_put_self, hget]
            exact ih hrest child
          · rw [Keyed.get?_put_of_ne hname]

/-- A change that is about one entry is not seen beside that entry. -/
lemma view_update_entry {f : Node → Node}
    (hf : ∀ n r, ¬ [name] <+: r → (f n).view r = n.view r) (h : ¬ p ++ [name] <+: q) (n : Node) :
    (update f p n).view q = n.view q := by
  by_cases hprefix : p <+: q
  · obtain ⟨r, rfl⟩ := hprefix
    rw [List.prefix_append_right_inj] at h
    unfold view
    rw [at?_update_append, at?_append]
    cases at? p n with
    | none => rfl
    | some child => exact hf child r h
  · exact view_update_of_not_prefix f hprefix n

lemma view_putEntry (new n : Node) (h : ¬ [name] <+: r) :
    (putEntry name new n).view r = n.view r := by
  cases n with
  | file c => rfl
  | folder entries =>
    cases r with
    | nil => rfl
    | cons other r =>
      have hne : other ≠ name := by
        rintro rfl
        exact h ⟨r, rfl⟩
      unfold view putEntry at?
      rw [Keyed.get?_put_of_ne hne]

lemma view_eraseEntry (n : Node) (h : ¬ [name] <+: r) :
    (eraseEntry name n).view r = n.view r := by
  cases n with
  | file c => rfl
  | folder entries =>
    cases r with
    | nil => rfl
    | cons other r =>
      have hne : other ≠ name := by
        rintro rfl
        exact h ⟨r, rfl⟩
      unfold view eraseEntry at?
      rw [Keyed.get?_erase_of_ne hne]

end Node

namespace Disk

variable {d d' d'' : Disk} {p old new : Path} {position q folder : Position} {name : String}

/-- The disks are the same but for what stands at some positions and below them. -/
structure SameBut (positions : List Position) (d d' : Disk) : Prop where
  current : d'.current = d.current
  view : ∀ q, (∀ position ∈ positions, ¬ position <+: q) → d'.tree.view q = d.tree.view q

namespace SameBut

variable {positions others : List Position}

lemma refl (positions : List Position) (d : Disk) : SameBut positions d d :=
  ⟨rfl, fun _ _ => rfl⟩

lemma trans (h : SameBut positions d d') (h' : SameBut others d' d'') :
    SameBut (positions ++ others) d d'' := by
  refine ⟨h'.current.trans h.current, fun q hq => ?_⟩
  obtain ⟨hpositions, hothers⟩ := List.forall_mem_append.1 hq
  exact (h'.view q hothers).trans (h.view q hpositions)

lemma put (d : Disk) (folder : Position) (name : String) (node : Node) :
    SameBut [folder ++ [name]] d (d.put folder name node) :=
  ⟨rfl, fun _ hq => Node.view_update_entry (fun n _ => Node.view_putEntry node n)
    (hq _ List.mem_cons_self) _⟩

lemma erase (d : Disk) (folder : Position) (name : String) :
    SameBut [folder ++ [name]] d (d.erase folder name) :=
  ⟨rfl, fun _ hq => Node.view_update_entry (fun n _ => Node.view_eraseEntry n)
    (hq _ List.mem_cons_self) _⟩

lemma clear (d : Disk) (position : Position) (f : Node → Node) :
    SameBut [position] d { d with tree := d.tree.update f position } :=
  ⟨rfl, fun _ hq => Node.view_update_of_not_prefix f (hq _ List.mem_cons_self) _⟩

end SameBut

/-! ### The calls -/

/-- A call about an entry of a folder changes no more than that entry. -/
lemma sameBut_makeFolder (h : d.makeFolder p = .ok d') : SameBut [p.place d.current] d d' := by
  obtain ⟨⟨folder, ending⟩, htarget, h⟩ := ok_of_bind h
  cases ending with
  | name s slashed =>
    obtain ⟨entry, -, h⟩ := ok_of_bind h
    rw [← target_name htarget]
    split_ifs at h
    cases h
    exact .put d folder s _
  | dot | dots | root => cases h

lemma sameBut_writeText {content : String} (h : d.writeText p content = .ok d') :
    SameBut [p.place d.current] d d' := by
  obtain ⟨⟨folder, ending⟩, htarget, h⟩ := ok_of_bind h
  cases ending with
  | name s slashed =>
    cases slashed with
    | true => cases h
    | false =>
      obtain ⟨entry, -, h⟩ := ok_of_bind h
      rw [← target_name htarget]
      split at h
      · cases h
      · cases h
        exact .put d folder s _
  | dot | dots | root => cases h

lemma sameBut_removeFile (h : d.removeFile p = .ok d') : SameBut [p.place d.current] d d' := by
  obtain ⟨⟨folder, ending⟩, htarget, h⟩ := ok_of_bind h
  cases ending with
  | name s slashed =>
    obtain ⟨entry, -, h⟩ := ok_of_bind h
    rw [← target_name htarget]
    split at h
    · cases h
    · cases h
    · split_ifs at h
      cases h
      exact .erase d folder s
  | dot | dots | root => cases h

lemma sameBut_removeFolder (h : d.removeFolder p = .ok d') :
    SameBut [p.place d.current] d d' := by
  obtain ⟨⟨folder, ending⟩, htarget, h⟩ := ok_of_bind h
  cases ending with
  | name s slashed =>
    obtain ⟨entry, -, h⟩ := ok_of_bind h
    rw [← target_name htarget]
    split at h
    · cases h
    · cases h
    · cases h
    · cases h
      exact .erase d folder s
  | dot | dots | root => cases h

lemma sameBut_clearFolder (h : d.clearFolder p = .ok d') :
    SameBut [p.place d.current] d d' := by
  obtain ⟨⟨position, node⟩, hlocate, h⟩ := ok_of_bind h
  cases node with
  | file c => cases h
  | folder entries =>
    cases h
    rw [← locate_eq hlocate]
    exact .clear d position _

/-- What is moved leaves its place and comes to another. -/
lemma sameBut_rename (h : d.rename old new = .ok d') :
    SameBut [old.place d.current, new.place d.current] d d' := by
  obtain ⟨⟨oldFolder, oldEnding⟩, hold, h⟩ := ok_of_bind h
  obtain ⟨⟨newFolder, newEnding⟩, hnew, h⟩ := ok_of_bind h
  cases oldEnding with
  | name oldName oldSlashed =>
    cases newEnding with
    | name newName newSlashed =>
      obtain ⟨entry, -, h⟩ := ok_of_bind h
      rw [← target_name hold, ← target_name hnew]
      cases entry with
      | none => cases h
      | some node =>
        obtain ⟨replaced, -, h⟩ := ok_of_bind h
        dsimp only at h
        split_ifs at h
        · cases h
          exact .refl _ d
        · split at h
          · cases h
          · cases h
            exact (SameBut.erase d oldFolder oldName).trans (.put _ newFolder newName node)
    | dot | dots | root => cases h
  | dot | dots | root => cases h

end Disk

end ScriptedNotes
