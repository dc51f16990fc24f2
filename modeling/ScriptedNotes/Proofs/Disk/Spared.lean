import ScriptedNotes.Proofs.Disk.Calls

/-!
Work that is not seen outside of a folder. Its calls have their places further in, and the folders
that are made on the way to a path below a folder that exists are below it too
(`spares_makeChain`): the folder itself is there, so the search for the first one that can be made
goes no further out.
-/

namespace ScriptedNotes

open ScriptedNotes.Path

/-- What does not stand inside of a folder is the same on both disks; of the folder itself that it
is one. -/
structure Disk.SameOutside (folder : Position) (d d' : Disk) : Prop where
  current : d'.current = d.current
  view : ∀ q, ¬ (folder <+: q ∧ q ≠ folder) → d'.tree.view q = d.tree.view q

/-- The place of the path is inside of a folder. -/
def Path.Inside (p : Path) (current folder : Position) : Prop :=
  ∃ names, names ≠ [] ∧ p.place current = folder ++ names

namespace Disk.SameOutside

variable {folder : Position} {d d' d'' : Disk}

lemma refl (folder : Position) (d : Disk) : d.SameOutside folder d :=
  ⟨rfl, fun _ _ => rfl⟩

lemma trans (h : d.SameOutside folder d') (h' : d'.SameOutside folder d'') :
    d.SameOutside folder d'' :=
  ⟨h'.current.trans h.current, fun q hq => (h'.view q hq).trans (h.view q hq)⟩

/-- What changes inside is not seen outside. -/
lemma of_sameBut {paths : List Path} (h : SameBut (paths.map (·.place d.current)) d d')
    (hinside : ∀ p ∈ paths, p.Inside d.current folder) : d.SameOutside folder d' := by
  refine ⟨h.current, fun q hq => h.view q fun position hposition hprefix => hq ?_⟩
  obtain ⟨p, hp, rfl⟩ := List.mem_map.1 hposition
  obtain ⟨names, hnames, hplace⟩ := hinside p hp
  rw [hplace] at hprefix
  refine ⟨(List.prefix_append folder names).trans hprefix, ?_⟩
  rintro rfl
  have hle := hprefix.length_le
  rw [List.length_append] at hle
  exact hnames (List.eq_nil_of_length_eq_zero (by omega))

end Disk.SameOutside

namespace DiskWork

section

variable {ε ε' α β : Type} {folder : Position} {d : Disk}

/-- The work that begins on a disk is not seen outside of a folder. -/
def Spares (folder : Position) (work : DiskWork ε α) (d : Disk) : Prop :=
  d.SameOutside folder (work d).2

lemma spares_pure (a : α) : Spares folder (pure a : DiskWork ε α) d :=
  .refl folder d

lemma spares_throw (e : ε) : Spares folder (throw e : DiskWork ε α) d :=
  .refl folder d

lemma Spares.adapt {work : DiskWork ε α} (h : Spares folder work d) (f : ε → ε') :
    Spares folder (ExceptT.adapt f work : DiskWork ε' α) d :=
  h

/-- A call is not seen outside when its places are inside. -/
lemma spares_change {f : Disk → Except Fault Disk} {paths : List Path}
    (hf : ∀ {d'}, f d = .ok d' → Disk.SameBut (paths.map (·.place d.current)) d d')
    (hinside : ∀ p ∈ paths, p.Inside d.current folder) : Spares folder (change f) d := by
  unfold Spares change
  split
  · next d' hd' => exact .of_sameBut (hf hd') hinside
  · exact .refl folder d

lemma Spares.bind {x : DiskWork ε α} {f : α → DiskWork ε β} (hx : Spares folder x d)
    (hf : ∀ a d', d'.current = d.current → Spares folder (f a) d') : Spares folder (x >>= f) d := by
  have hbind : (x >>= f) d = ExceptT.bindCont f (x d).1 (x d).2 := rfl
  unfold Spares at hx ⊢
  rw [hbind]
  cases (x d).1 with
  | ok a => exact hx.trans (hf a _ hx.current)
  | error e => exact hx

/-- Work that goes by what the disk answers. -/
lemma Spares.ask {f : Disk → α} {g : α → DiskWork ε β} (h : Spares folder (g (f d)) d) :
    Spares folder (DiskWork.ask f >>= g) d :=
  h

lemma tryCatch_of_error {x : DiskWork ε α} {handler : ε → DiskWork ε α} {e : ε} {d' : Disk}
    (h : x d = (.error e, d')) : (tryCatch x handler : DiskWork ε α) d = handler e d' := by
  show ExceptT.tryCatch x handler d = _
  simp only [ExceptT.tryCatch, ExceptT.mk, bind, StateT.bind, h]

lemma tryCatch_of_ok {x : DiskWork ε α} {handler : ε → DiskWork ε α} {a : α} {d' : Disk}
    (h : x d = (.ok a, d')) : (tryCatch x handler : DiskWork ε α) d = (.ok a, d') := by
  show ExceptT.tryCatch x handler d = _
  simp only [ExceptT.tryCatch, ExceptT.mk, bind, StateT.bind, h]
  rfl

/-- A handler goes on from the disk that the failed work left. -/
lemma Spares.tryCatch {x : DiskWork ε α} {handler : ε → DiskWork ε α} (hx : Spares folder x d)
    (hhandler : ∀ e d', x d = (.error e, d') → d'.current = d.current →
      Spares folder (handler e) d') : Spares folder (tryCatch x handler) d := by
  unfold Spares at hx ⊢
  cases hrun : x d with
  | mk result d' =>
    rw [hrun] at hx
    cases result with
    | ok a =>
      rw [tryCatch_of_ok hrun]
      exact hx
    | error e =>
      rw [tryCatch_of_error hrun]
      exact hx.trans (hhandler e d' hrun hx.current)

end

/-! ### Works of several calls -/

section

variable {folder : Position} {d : Disk} {p : Path}

lemma spares_removeTree (h : p.Inside d.current folder) : Spares folder (removeTree p) d := by
  have hinside : ∀ q ∈ [p], q.Inside d.current folder := List.forall_mem_singleton.2 h
  refine .bind (spares_change Disk.sameBut_clearFolder hinside) fun _ d' hd' => ?_
  exact spares_change Disk.sameBut_removeFolder (hd' ▸ hinside)

/-- A file is replaced by way of its draft, and both have to be inside. -/
lemma spares_replaceText {content : String} (h : p.Inside d.current folder)
    (hdraft : (draft p).Inside d.current folder) : Spares folder (replaceText p content) d := by
  have hboth : ∀ q ∈ [draft p, p], q.Inside d.current folder :=
    List.forall_mem_cons.2 ⟨hdraft, List.forall_mem_singleton.2 h⟩
  have hone : ∀ q ∈ [draft p], q.Inside d.current folder := List.forall_mem_singleton.2 hdraft
  refine .tryCatch (.bind (spares_change Disk.sameBut_writeText hone) fun _ d' hd' => ?_)
    fun fault d' _ hd' => ?_
  · exact spares_change Disk.sameBut_rename (hd' ▸ hboth)
  · refine .bind (.tryCatch (spares_change Disk.sameBut_removeFile (hd' ▸ hone)) ?_)
      fun _ _ _ => spares_throw fault
    exact fun _ _ _ _ => spares_pure ()

lemma ensureFolder_of_error {fault : Fault} {d' : Disk}
    (h : ensureFolder p d = (.error fault, d')) : d' = d := by
  unfold ensureFolder at h
  split at h
  · cases h
  · exact (congrArg Prod.snd h).symm
  · exact (congrArg Prod.snd h).symm

lemma spares_ensureFolder (h : p.Inside d.current folder) : Spares folder (ensureFolder p) d := by
  unfold Spares ensureFolder
  split
  · next d' hd' =>
    have hbut : Disk.SameBut ([p].map (·.place d.current)) d d' := Disk.sameBut_makeFolder hd'
    exact .of_sameBut hbut (List.forall_mem_singleton.2 h)
  · exact .refl folder d
  · exact .refl folder d

/-! ### Folders on the way -/

variable {root : Path} {entries : List (String × Node)} {names : List String}
  (hroot : d.locate root = .ok (folder, .folder entries))
include hroot

lemma text_ne_of_locate : root.text ≠ "" := by
  intro htext
  obtain ⟨text⟩ := root
  subst htext
  cases hroot

/-- More names lead inside. -/
lemma inside_of_parts (hparts : p.parts = root.parts ++ names.map .name) (hnames : names ≠ []) :
    p.Inside d.current folder := by
  refine ⟨names, hnames, ?_⟩
  unfold place
  rw [hparts, List.foldl_append, foldl_onto_names, Disk.locate_eq hroot]
  rfl

/-- The folder itself is not missing, whatever its path. -/
lemma ensureFolder_of_parts (hparts : p.parts = root.parts) (hp : p.text ≠ "") :
    ∃ result, ensureFolder p d = (result, d) ∧ result ≠ .error .notFound := by
  obtain ⟨hstart, hinner⟩ := Disk.start_eq_of_parts d hparts
  have henters : d.Enters (d.start p) (innerParts p.pieces) := by
    rw [hstart, hinner]
    exact Disk.enters_of_locate hroot
  obtain ⟨fault, hfault, hne⟩ := Disk.makeFolder_of_enters hp henters
  unfold ensureFolder
  rw [hfault]
  split
  · next hok => cases hok
  · refine ⟨_, rfl, ?_⟩
    split <;> simp
  · next hother =>
    cases hother
    exact ⟨_, rfl, fun he => hne (Except.error.inj he)⟩

/-- **The folders that are made on the way to a path are inside.** The search for the first one that
can be made ends at the folder itself, if not before. -/
theorem spares_makeChain (n : ℕ) (hparts : p.parts = root.parts ++ names.map .name) :
    Spares folder (makeChain (ancestors.go n p)) d := by
  induction n generalizing p names with
  | zero => exact spares_pure ()
  | succ n ih =>
    unfold ancestors.go
    cases hparent : p.parent? with
    | none => exact spares_pure ()
    | some parent =>
      have hp : p.text ≠ "" := by
        intro htext
        obtain ⟨text⟩ := p
        subst htext
        cases hparent
      unfold makeChain
      rcases List.eq_nil_or_concat names with rfl | ⟨front, last, rfl⟩
      · rw [List.map_nil, List.append_nil] at hparts
        obtain ⟨result, hrun, hfound⟩ := ensureFolder_of_parts hroot hparts hp
        refine .tryCatch ?_ fun fault d' hd' _ => ?_
        · unfold Spares
          rw [hrun]
          exact .refl folder d
        · rw [hrun] at hd'
          cases hd'
          cases fault with
          | notFound => exact (hfound rfl).elim
          | _ => exact spares_throw _
      · rw [List.concat_eq_append] at hparts
        have hinside := inside_of_parts hroot hparts (by simp)
        refine .tryCatch (spares_ensureFolder hinside) fun fault d' hd' _ => ?_
        obtain rfl := ensureFolder_of_error hd'
        cases fault with
        | notFound =>
          refine .bind (ih (parts_parent_of_names hparts hparent)) fun _ _ hd => ?_
          exact spares_ensureFolder (hd ▸ hinside)
        | _ => exact spares_throw _

/-- The folder of a path is made inside. -/
lemma spares_makeParent (hparts : p.parts = root.parts ++ names.map .name) (hnames : names ≠ []) :
    Spares folder (makeParent p) d := by
  unfold makeParent
  cases hparent : p.parent? with
  | none => exact spares_pure ()
  | some parent =>
    obtain ⟨front, last, rfl⟩ := (List.eq_nil_or_concat names).resolve_left hnames
    rw [List.concat_eq_append] at hparts
    exact .adapt (spares_makeChain hroot _ (parts_parent_of_names hparts hparent)) _

end

end DiskWork

end ScriptedNotes
