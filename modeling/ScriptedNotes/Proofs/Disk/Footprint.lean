import ScriptedNotes.Proofs.Disk.Moving

/-!
What single positions a call changes. Below the place of a file, or of a folder that has just been
made, nothing stands before the call nor after it, so that no more is changed than what stands at
the place itself (`SameBut.sameButAt`). The folders on the way to a path are added where nothing
stood (`grown_makeParent`), and a file that is replaced by way of its draft leaves no draft behind,
whether or not it is replaced (`replaceText_cases`).
-/

namespace ScriptedNotes

open ScriptedNotes.Path

namespace Disk

variable {d d' d'' : Disk} {p old new : Path} {q position : Position} {c : Content}

/-- Nothing stands below a position. -/
def Bare (d : Disk) (position : Position) : Prop :=
  ∀ entries, d.tree.at? position = some (.folder entries) → entries = []

/-- The disks are the same but for what stands at some positions. -/
structure SameButAt (positions : List Position) (d d' : Disk) : Prop where
  current : d'.current = d.current
  view : ∀ q, q ∉ positions → d'.tree.view q = d.tree.view q

/-- Folders may have been added where nothing stood, at some of the positions. -/
structure Grown (here : Position → Prop) (d d' : Disk) : Prop where
  current : d'.current = d.current
  view : ∀ q, d'.tree.view q = d.tree.view q ∨
    here q ∧ d.tree.view q = none ∧ d'.tree.view q = some none

lemma view_eq_file_iff : d.tree.view q = some (some c) ↔ d.tree.at? q = some (.file c) := by
  unfold Node.view
  cases d.tree.at? q with
  | none => simp
  | some n => cases n <;> simp [Node.content?]

lemma bare_of_not_folderAt (h : ¬ d.FolderAt position) : d.Bare position :=
  fun entries hentries => (h ⟨entries, hentries⟩).elim

lemma bare_of_empty (h : d.tree.at? position = some (.folder [])) : d.Bare position := by
  intro entries hentries
  rw [h] at hentries
  cases hentries
  rfl

lemma Bare.view_append (h : d.Bare position) {r : Position} (hr : r ≠ []) :
    d.tree.view (position ++ r) = none := by
  obtain ⟨name, rest, rfl⟩ := List.exists_cons_of_ne_nil hr
  rw [view_eq_none_iff, Node.at?_append]
  cases hnode : d.tree.at? position with
  | none => rfl
  | some n =>
    cases n with
    | file c => rfl
    | folder entries =>
      rw [h entries hnode]
      rfl

/-- Below positions with nothing below them, nothing has changed. -/
theorem SameBut.sameButAt {positions : List Position} (h : SameBut positions d d')
    (hbare : ∀ position ∈ positions, d.Bare position ∧ d'.Bare position) :
    SameButAt positions d d' := by
  refine ⟨h.current, fun q hq => ?_⟩
  by_cases hbelow : ∀ position ∈ positions, ¬ position <+: q
  · exact h.view q hbelow
  · push Not at hbelow
    obtain ⟨position, hposition, r, rfl⟩ := hbelow
    have hr : r ≠ [] := by
      rintro rfl
      exact hq (by rwa [List.append_nil])
    obtain ⟨hbefore, hafter⟩ := hbare position hposition
    rw [hbefore.view_append hr, hafter.view_append hr]

/-! ### The calls -/

/-- What stands where a located node does. -/
lemma at?_of_locate {n : Node} (h : d.locate p = .ok (q, n)) : d.tree.at? q = some n :=
  (locate_ok h).2

lemma makeFolder_cases (h : d.makeFolder p = .ok d') :
    SameButAt [p.place d.current] d d' ∧ d.tree.at? (p.place d.current) = none ∧
      d'.tree.at? (p.place d.current) = some (.folder []) := by
  have hafter := at?_of_locate (locate_makeFolder h)
  have hbut := sameBut_makeFolder h
  obtain ⟨⟨folder, ending⟩, htarget, h⟩ := ok_of_bind h
  cases ending with
  | name s slashed =>
    obtain ⟨found, hentry, h⟩ := ok_of_bind h
    obtain ⟨-, rfl⟩ := entry?_ok hentry
    split_ifs at h with hsome
    have hbefore : d.tree.at? (p.place d.current) = none := by
      rw [← target_name htarget]
      simpa using hsome
    refine ⟨hbut.sameButAt (List.forall_mem_singleton.2 ?_), hbefore, hafter⟩
    exact ⟨bare_of_not_folderAt (not_folderAt_of_none hbefore), bare_of_empty hafter⟩
  | dot | dots | root => cases h

/-- A text is written over no folder, and can be taken away again. -/
lemma writeText_cases {content : String} (h : d.writeText p content = .ok d') :
    SameButAt [p.place d.current] d d' ∧ ¬ d.FolderAt (p.place d.current) ∧
      d'.tree.at? (p.place d.current) = some (.file (.text content)) ∧
      ∃ d'', d'.removeFile p = .ok d'' := by
  obtain ⟨hkept, hlocate⟩ := locate_writeText h
  have hafter := at?_of_locate hlocate
  have hfree : ¬ d.FolderAt (p.place d.current) :=
    fun hfolder => not_folderAt_of_file hafter (hkept.folder hfolder)
  have hbut := (sameBut_writeText h).sameButAt (List.forall_mem_singleton.2
    ⟨bare_of_not_folderAt hfree, bare_of_not_folderAt (not_folderAt_of_file hafter)⟩)
  refine ⟨hbut, hfree, hafter, ?_⟩
  obtain ⟨⟨folder, ending⟩, htarget, h⟩ := ok_of_bind h
  cases ending with
  | name s slashed =>
    cases slashed with
    | true => cases h
    | false =>
      obtain ⟨found, hentry, -⟩ := ok_of_bind h
      have hentry' : d'.entry? folder s = .ok (some (.file (.text content))) := by
        unfold entry?
        rw [if_neg (Nat.not_lt.2 (entry?_ok hentry).1), target_name htarget, hafter]
      unfold removeFile
      rw [hkept.target htarget]
      refine ⟨d'.erase folder s, ?_⟩
      simp only [bind, Except.bind, hentry']
      rfl
  | dot | dots | root => cases h

lemma removeFile_cases (h : d.removeFile p = .ok d') :
    SameButAt [p.place d.current] d d' ∧ ¬ d.FolderAt (p.place d.current) ∧
      d'.tree.at? (p.place d.current) = none := by
  have hbut := sameBut_removeFile h
  obtain ⟨⟨folder, ending⟩, htarget, h⟩ := ok_of_bind h
  cases ending with
  | name s slashed =>
    obtain ⟨found, hentry, h⟩ := ok_of_bind h
    obtain ⟨-, rfl⟩ := entry?_ok hentry
    rw [target_name htarget] at h
    split at h
    · cases h
    · cases h
    · next c hfile =>
      split_ifs at h with hslashed
      cases h
      have hafter : (d.erase folder s).tree.at? (p.place d.current) = none := by
        rw [← target_name htarget]
        exact at?_erase d folder s
      have hbefore := not_folderAt_of_file hfile
      refine ⟨hbut.sameButAt (List.forall_mem_singleton.2 ⟨bare_of_not_folderAt hbefore, ?_⟩),
        hbefore, hafter⟩
      exact bare_of_not_folderAt (not_folderAt_of_none hafter)
  | dot | dots | root => cases h

/-- A file that moves to another place comes there over no folder. -/
lemma rename_file (h : d.rename old new = .ok d')
    (hfile : d.tree.at? (old.place d.current) = some (.file c))
    (hapart : old.place d.current ≠ new.place d.current) :
    SameButAt [old.place d.current, new.place d.current] d d' ∧
      ¬ d.FolderAt (new.place d.current) ∧ d'.tree.at? (old.place d.current) = none ∧
      d'.locate new = .ok (new.place d.current, .file c) := by
  obtain ⟨node, hmoved⟩ := moved_of_rename h
  obtain rfl : node = .file c := by
    have hbefore := at?_of_locate hmoved.before
    rw [hfile] at hbefore
    exact (Option.some.inj hbefore).symm
  have hnew := at?_of_locate (hmoved.found (.inl rfl))
  obtain ⟨oldFolder, oldName, newFolder, newName, node, hold, hgoal, hnode, hcase⟩ := rename_cases h
  rw [hold.place] at hnode
  rw [hold.place, hgoal.place] at hcase
  obtain ⟨-, honto, hblocked, rfl⟩ := hcase.resolve_left fun hsame => hapart hsame.1
  have hgone : ((d.erase oldFolder oldName).put newFolder newName node).tree.at?
      (old.place d.current) = none := by
    rw [← view_eq_none_iff, (SameBut.put _ newFolder newName node).view _, view_eq_none_iff,
      ← hold.place]
    · exact at?_erase d oldFolder oldName
    · rw [hgoal.place]
      exact List.forall_mem_singleton.2 honto
  have hfree : ¬ d.FolderAt (new.place d.current) := by
    rintro ⟨entries, hentries⟩
    rw [hfile] at hnode
    cases hnode
    rw [hentries] at hblocked
    cases hblocked
  refine ⟨(sameBut_rename h).sameButAt ?_, hfree, hgone, hmoved.found (.inl rfl)⟩
  refine List.forall_mem_cons.2 ⟨?_, List.forall_mem_singleton.2 ?_⟩
  · exact ⟨bare_of_not_folderAt (not_folderAt_of_file hfile),
      bare_of_not_folderAt (not_folderAt_of_none hgone)⟩
  · exact ⟨bare_of_not_folderAt hfree, bare_of_not_folderAt (not_folderAt_of_file hnew)⟩

end Disk

/-! ### Folders on the way -/

namespace Disk.Grown

variable {d d' d'' : Disk} {here : Position → Prop} {q : Position} {c : Content}

lemma refl (here : Position → Prop) (d : Disk) : Grown here d d :=
  ⟨rfl, fun _ => .inl rfl⟩

lemma trans (h : Grown here d d') (h' : Grown here d' d'') : Grown here d d'' := by
  refine ⟨h'.current.trans h.current, fun q => ?_⟩
  rcases h'.view q with hsame' | ⟨hhere, hfree, hfolder⟩
  · rw [hsame']
    exact h.view q
  · rcases h.view q with hsame | ⟨-, -, hfolder'⟩
    · exact .inr ⟨hhere, hsame ▸ hfree, hfolder⟩
    · -- where a folder was added there is no room for another one
      rw [hfree] at hfolder'
      cases hfolder'

/-- Folders take no file away and bring none. -/
lemma file_iff (h : Grown here d d') :
    d'.tree.at? q = some (.file c) ↔ d.tree.at? q = some (.file c) := by
  rw [← view_eq_file_iff, ← view_eq_file_iff]
  rcases h.view q with hsame | ⟨-, hfree, hfolder⟩
  · rw [hsame]
  · simp [hfree, hfolder]

lemma folderAt (h : Grown here d d') (hq : d.FolderAt q) : d'.FolderAt q := by
  rw [folderAt_iff_view] at hq ⊢
  rcases h.view q with hsame | ⟨-, hfree, -⟩
  · rw [hsame, hq]
  · rw [hfree] at hq
    cases hq

end Disk.Grown

namespace DiskWork

open Disk (Grown SameButAt)

variable {ε ε' α β : Type} {d d' : Disk} {p : Path} {here : Position → Prop}

lemma bind_of_ok {x : DiskWork ε α} {f : α → DiskWork ε β} {a : α} (h : x d = (.ok a, d')) :
    (x >>= f) d = f a d' := by
  have hbind : (x >>= f) d = ExceptT.bindCont f (x d).1 (x d).2 := rfl
  rw [hbind, h]
  rfl

lemma bind_of_error {x : DiskWork ε α} {f : α → DiskWork ε β} {e : ε} (h : x d = (.error e, d')) :
    (x >>= f) d = (.error e, d') := by
  have hbind : (x >>= f) d = ExceptT.bindCont f (x d).1 (x d).2 := rfl
  rw [hbind, h]
  rfl

lemma change_of_ok {f : Disk → Except Fault Disk} (h : f d = .ok d') :
    change f d = (.ok (), d') := by
  unfold change
  rw [h]

lemma change_of_error {f : Disk → Except Fault Disk} {fault : Fault} (h : f d = .error fault) :
    change f d = (.error fault, d) := by
  unfold change
  rw [h]

lemma grown_ensureFolder (h : here (p.place d.current)) : Grown here d (ensureFolder p d).2 := by
  unfold ensureFolder
  split
  · next d' hmake =>
    obtain ⟨hbut, hfree, hfolder⟩ := Disk.makeFolder_cases hmake
    refine ⟨hbut.current, fun q => ?_⟩
    by_cases hq : q = p.place d.current
    · subst hq
      exact .inr ⟨h, Disk.view_eq_none_iff.2 hfree,
        Disk.folderAt_iff_view.1 ⟨[], hfolder⟩⟩
    · exact .inl (hbut.view q (by simpa using hq))
  · exact .refl here d
  · exact .refl here d

/-- A chain of folders is added at the places of its paths, as far as it is not there. -/
lemma grown_makeChain {chain : List Path} (h : ∀ p ∈ chain, here (p.place d.current)) :
    Grown here d (makeChain chain d).2 := by
  induction chain generalizing d with
  | nil => exact .refl here d
  | cons p parents ih =>
    obtain ⟨hp, hparents⟩ := List.forall_mem_cons.1 h
    unfold makeChain
    cases hfirst : ensureFolder p d with
    | mk result d₁ =>
      cases result with
      | ok a =>
        rw [tryCatch_of_ok hfirst, ← hfirst]
        exact grown_ensureFolder hp
      | error fault =>
        obtain rfl := ensureFolder_of_error hfirst
        rw [tryCatch_of_error hfirst]
        cases fault with
        | notFound =>
          have hchain := ih hparents
          show Grown here d₁ ((makeChain parents >>= fun _ => ensureFolder p) d₁).2
          cases hrun : makeChain parents d₁ with
          | mk result d₂ =>
            rw [hrun] at hchain
            cases result with
            | ok a =>
              rw [bind_of_ok hrun]
              exact hchain.trans (grown_ensureFolder (hchain.current ▸ hp))
            | error e =>
              rw [bind_of_error hrun]
              exact hchain
        | _ => exact .refl here d₁

/-- The folders that may be made on the way to a path. -/
def OnTheWay (p : Path) (current : Position) (q : Position) : Prop :=
  ∃ parent, p.parent? = some parent ∧ ∃ a ∈ parent.ancestors, a.place current = q

/-- **On the way to a path folders are added where nothing stood**, and nothing else changes. -/
theorem grown_makeParent (p : Path) (d : Disk) :
    Grown (OnTheWay p d.current) d (makeParent p d).2 := by
  unfold makeParent
  cases hparent : p.parent? with
  | none => exact .refl _ d
  | some parent =>
    exact grown_makeChain fun a ha => ⟨parent, hparent, a, ha, rfl⟩

/-! ### Files with a draft -/

/-- What may come of a file that is to be replaced by way of its draft. -/
inductive Replacement (p : Path) (content : String) (d : Disk) :
    Except Fault Unit → Disk → Prop where
  /-- There was no draft. -/
  | refused (fault : Fault) : Replacement p content d (.error fault) d
  /-- There is no draft any more, and the file is as it was. -/
  | givenUp (fault : Fault) {d' : Disk} (but : SameButAt [(draft p).place d.current] d d')
      (free : ¬ d.FolderAt ((draft p).place d.current))
      (gone : d'.tree.at? ((draft p).place d.current) = none) :
      Replacement p content d (.error fault) d'
  /-- The draft took the place of the file. -/
  | done {d' : Disk} (but : SameButAt [(draft p).place d.current, p.place d.current] d d')
      (free : ¬ d.FolderAt ((draft p).place d.current)) (plain : ¬ d.FolderAt (p.place d.current))
      (gone : d'.tree.at? ((draft p).place d.current) = none)
      (found : d'.locate p = .ok (p.place d.current, .file (.text content))) :
      Replacement p content d (.ok ()) d'

namespace Replacement

variable {content : String} {result : Except Fault Unit} {q : Position}

lemma current (h : Replacement p content d result d') : d'.current = d.current := by
  cases h with
  | refused => rfl
  | givenUp _ but => exact but.current
  | done but => exact but.current

lemma elsewhere (h : Replacement p content d result d') (hdraft : q ≠ (draft p).place d.current)
    (hfile : q ≠ p.place d.current) : d'.tree.view q = d.tree.view q := by
  cases h with
  | refused => rfl
  | givenUp _ but => exact but.view q (by simpa using hdraft)
  | done but => exact but.view q (by simp [hdraft, hfile])

/-- A file that is not replaced is as it was. -/
lemma failed {fault : Fault} (h : Replacement p content d (.error fault) d')
    (hapart : (draft p).place d.current ≠ p.place d.current) :
    d'.tree.view (p.place d.current) = d.tree.view (p.place d.current) := by
  cases h with
  | refused => rfl
  | givenUp _ but => exact but.view _ (by simpa using hapart.symm)

/-- Where the draft was, there is nothing new. -/
lemma at_draft (h : Replacement p content d result d') :
    d' = d ∨ ¬ d.FolderAt ((draft p).place d.current) ∧
      d'.tree.at? ((draft p).place d.current) = none := by
  cases h with
  | refused => exact .inl rfl
  | givenUp _ _ free gone => exact .inr ⟨free, gone⟩
  | done _ free _ gone => exact .inr ⟨free, gone⟩

lemma folderAt (h : Replacement p content d result d') (hq : d.FolderAt q) : d'.FolderAt q := by
  have hkept : ∀ {positions : List Position}, SameButAt positions d d' → q ∉ positions →
      d'.FolderAt q := by
    intro positions but hnot
    rw [Disk.folderAt_iff_view, but.view q hnot, ← Disk.folderAt_iff_view]
    exact hq
  cases h with
  | refused => exact hq
  | givenUp _ but free =>
    refine hkept but fun hmem => free ?_
    exact List.mem_singleton.1 hmem ▸ hq
  | done but free plain =>
    refine hkept but fun hmem => ?_
    rcases List.mem_pair.1 hmem with rfl | rfl
    · exact free hq
    · exact plain hq

/-- A draft that was written and taken away again. -/
lemma of_removed {d₁ d₂ : Disk} (fault : Fault) (hwrite : d.writeText (draft p) content = .ok d₁)
    (hremove : d₁.removeFile (draft p) = .ok d₂) : Replacement p content d (.error fault) d₂ := by
  obtain ⟨hbut, hfree, -⟩ := Disk.writeText_cases hwrite
  obtain ⟨hbut', -, hgone⟩ := Disk.removeFile_cases hremove
  rw [hbut.current] at hbut' hgone
  refine .givenUp fault ⟨hbut'.current.trans hbut.current, fun q hq => ?_⟩ hfree hgone
  rw [hbut'.view q hq, hbut.view q hq]

/-- A draft that was written and moved to the file. -/
lemma of_moved {d₁ d₂ : Disk} (hapart : (draft p).place d.current ≠ p.place d.current)
    (hwrite : d.writeText (draft p) content = .ok d₁) (hmove : d₁.rename (draft p) p = .ok d₂) :
    Replacement p content d (.ok ()) d₂ := by
  obtain ⟨hbut, hfree, hdraft, -⟩ := Disk.writeText_cases hwrite
  rw [← hbut.current] at hdraft hapart
  obtain ⟨hbut', hplain, hgone, hfound⟩ := Disk.rename_file hmove hdraft hapart
  rw [hbut.current] at hbut' hplain hgone hfound hapart
  refine .done ⟨hbut'.current.trans hbut.current, fun q hq => ?_⟩ hfree (fun hfolder => ?_)
    hgone hfound
  · rw [hbut'.view q hq, hbut.view q fun hmem => hq (List.mem_cons.2 (.inl ?_))]
    exact List.mem_singleton.1 hmem
  · refine hplain ?_
    rw [Disk.folderAt_iff_view] at hfolder ⊢
    rw [hbut.view _ fun hmem => hapart (List.mem_singleton.1 hmem).symm, hfolder]

end Replacement

/-- After a failure a draft is taken away, if there is one that can be. -/
lemma removeDraft_run (fault : Fault) (d : Disk) :
    ∃ d', (do
        tryCatch (change (·.removeFile (draft p))) fun _ => pure ()
        throw fault : DiskWork Fault Unit) d = (.error fault, d') ∧
      (d' = d ∧ (∃ other, d.removeFile (draft p) = .error other) ∨
        d.removeFile (draft p) = .ok d') := by
  cases hremove : d.removeFile (draft p) with
  | error other =>
    have hrun : tryCatch (change (·.removeFile (draft p))) (fun _ => pure ()) d = (.ok (), d) :=
      tryCatch_of_error (change_of_error hremove)
    exact ⟨d, bind_of_ok hrun, .inl ⟨rfl, other, rfl⟩⟩
  | ok d' =>
    have hrun : tryCatch (change (·.removeFile (draft p))) (fun _ => pure ()) d = (.ok (), d') :=
      tryCatch_of_ok (change_of_ok hremove)
    exact ⟨d', bind_of_ok hrun, .inr rfl⟩

/-- **A file is replaced, or it is as it was; in neither case a draft is left.** -/
theorem replaceText_cases {content : String} {result : Except Fault Unit}
    (hapart : (draft p).place d.current ≠ p.place d.current)
    (h : replaceText p content d = (result, d')) : Replacement p content d result d' := by
  unfold replaceText at h
  cases hwrite : d.writeText (draft p) content with
  | error fault =>
    have hrun : (do
        change (·.writeText (draft p) content)
        change (·.rename (draft p) p) : DiskWork Fault Unit) d = (.error fault, d) :=
      bind_of_error (change_of_error hwrite)
    rw [tryCatch_of_error hrun] at h
    obtain ⟨d₁, hremoved, hcase⟩ := removeDraft_run (p := p) fault d
    rw [hremoved] at h
    cases h
    rcases hcase with ⟨rfl, -⟩ | hremove
    · exact .refused fault
    · obtain ⟨hbut, hfree, hgone⟩ := Disk.removeFile_cases hremove
      exact .givenUp fault hbut hfree hgone
  | ok d₁ =>
    cases hmove : d₁.rename (draft p) p with
    | error fault =>
      have hrun : (do
          change (·.writeText (draft p) content)
          change (·.rename (draft p) p) : DiskWork Fault Unit) d = (.error fault, d₁) :=
        (bind_of_ok (change_of_ok hwrite)).trans (change_of_error hmove)
      rw [tryCatch_of_error hrun] at h
      obtain ⟨d₂, hremoved, hcase⟩ := removeDraft_run (p := p) fault d₁
      rw [hremoved] at h
      cases h
      rcases hcase with ⟨-, other, hother⟩ | hremove
      · -- the draft has just been written, so it can be taken away
        obtain ⟨-, -, -, d₃, hremove⟩ := Disk.writeText_cases hwrite
        rw [hremove] at hother
        cases hother
      · exact .of_removed fault hwrite hremove
    | ok d₂ =>
      have hrun : (do
          change (·.writeText (draft p) content)
          change (·.rename (draft p) p) : DiskWork Fault Unit) d = (.ok (), d₂) :=
        (bind_of_ok (change_of_ok hwrite)).trans (change_of_ok hmove)
      rw [tryCatch_of_ok hrun] at h
      cases h
      exact .of_moved hapart hwrite hmove

end DiskWork

end ScriptedNotes
