import ScriptedNotes.Proofs.Script.SourceLines
import ScriptedNotes.Proofs.Text.Trimming

/-!
Lines of which only the text counts. `shown` leaves blank lines out and takes the blanks off the
others; a text is put together from its lines behind line feeds (`fed`).
-/

namespace ScriptedNotes.Script

open Text

/-! ### Lines that are shown -/

/-- The lines that are not blank, without the blanks around them. -/
def shown (ls : List (List Char)) : List (List Char) :=
  (ls.filter fun l => !allBlank l).map trim

section Shown

variable {l w : List Char} {ls ms ws ws' : List (List Char)}

lemma shown_cons_blank (h : allBlank l = true) (ls : List (List Char)) :
    shown (l :: ls) = shown ls := by
  simp [shown, h]

lemma shown_cons (h : allBlank l = false) (ls : List (List Char)) :
    shown (l :: ls) = trim l :: shown ls := by
  simp [shown, h]

@[simp] lemma shown_append : shown (ls ++ ms) = shown ls ++ shown ms := by
  simp [shown]

lemma lineWise_shown : LineWise shown where
  emptyLast := rfl
  lineReturn l ls := by
    have hreturn : allBlank (l ++ ['\r']) = allBlank l := by
      rw [allBlank, List.all_append, show ['\r'].all isBlank = true by decide, Bool.and_true,
        allBlank]
    cases h : allBlank l with
    | true => rw [shown_cons_blank h, shown_cons_blank (hreturn.trans h)]
    | false =>
      rw [shown_cons h, shown_cons (hreturn.trans h), trim_concat_of_isBlank (by decide)]
  cons l ls ls' heq := by
    cases h : allBlank l with
    | true => rw [shown_cons_blank h, shown_cons_blank h, heq]
    | false => rw [shown_cons h, shown_cons h, heq]

/-- Each line that is shown has its place among the lines. -/
lemma exists_of_shown (h : shown ls = ws ++ w :: ws') : ∃ before l behind,
    ls = before ++ l :: behind ∧ shown before = ws ∧ trim l = w ∧ shown behind = ws' := by
  induction ls generalizing ws with
  | nil => simp [shown] at h
  | cons l ls ih =>
    cases hl : allBlank l with
    | true =>
      rw [shown_cons_blank hl] at h
      obtain ⟨before, l', behind, rfl, hbefore, hw, hbehind⟩ := ih h
      exact ⟨l :: before, l', behind, rfl, by rw [shown_cons_blank hl, hbefore], hw, hbehind⟩
    | false =>
      rw [shown_cons hl] at h
      cases ws with
      | nil =>
        obtain ⟨hw, hbehind⟩ := List.cons.inj h
        exact ⟨[], l, ls, rfl, rfl, hw, hbehind⟩
      | cons first ws =>
        obtain ⟨hfirst, hrest⟩ := List.cons.inj h
        obtain ⟨before, l', behind, rfl, hbefore, hw, hbehind⟩ := ih hrest
        exact ⟨l :: before, l', behind, rfl, by rw [shown_cons hl, hfirst, hbefore], hw, hbehind⟩

/-- The first line that is shown. -/
lemma exists_of_shown_cons (h : shown ls = w :: ws) : ∃ above l below,
    ls = above ++ l :: below ∧ shown above = [] ∧ trim l = w ∧ shown below = ws := by
  have hfirst : shown ls = [] ++ w :: ws := h
  exact exists_of_shown hfirst

/-- Lines behind line feeds. -/
def fed (ls : List (List Char)) : List Char :=
  ls.flatMap ('\n' :: ·)

lemma fed_append (ls ms : List (List Char)) : fed (ls ++ ms) = fed ls ++ fed ms :=
  List.flatMap_append

lemma fed_cons (l : List Char) (ls : List (List Char)) : fed (l :: ls) = '\n' :: (l ++ fed ls) :=
  rfl

lemma intercalate_cons_eq_fed (l : List Char) (ls : List (List Char)) :
    ['\n'].intercalate (l :: ls) = l ++ fed ls := by
  induction ls generalizing l with
  | nil => simp [fed]
  | cons m ls ih =>
    rw [List.intercalate_cons_cons, ih, fed_cons, List.append_assoc, List.singleton_append]

lemma fed_pieces (s : List Char) : fed (pieces s) = '\n' :: s := by
  obtain ⟨l, ls, hls⟩ := List.exists_cons_of_ne_nil (List.splitOn_ne_nil '\n' s)
  have hs : ['\n'].intercalate (l :: ls) = s := by rw [← hls, List.intercalate_splitOn]
  rw [pieces, hls, fed_cons, ← intercalate_cons_eq_fed, hs]

/-- A line goes on, and others follow. -/
lemma intercalate_append_cons (ls : List (List Char)) (l t : List Char) (ms : List (List Char)) :
    ['\n'].intercalate (ls ++ (l ++ t) :: ms) =
      ['\n'].intercalate (ls ++ [l]) ++ (t ++ fed ms) := by
  cases ls with
  | nil =>
    rw [List.nil_append, List.nil_append, intercalate_cons_eq_fed, intercalate_cons_eq_fed]
    simp [fed]
  | cons k ls =>
    rw [List.cons_append, List.cons_append, intercalate_cons_eq_fed, intercalate_cons_eq_fed,
      fed_append, fed_append, fed_cons, fed_cons]
    simp [fed]

lemma allBlank_fed (h : shown ls = []) : allBlank (fed ls) = true := by
  have hblank : ∀ l ∈ ls, allBlank l = true := by
    intro l hl
    by_contra hne
    have hmem : trim l ∈ shown ls :=
      List.mem_map_of_mem (List.mem_filter.2 ⟨hl, by simpa using hne⟩)
    rw [h] at hmem
    cases hmem
  rw [allBlank, fed, List.all_flatMap, List.all_eq_true]
  intro l hl
  rw [List.all_cons, show isBlank '\n' = true by decide, Bool.true_and]
  exact hblank l hl

/-- A text has a character that is not blank only if one of its lines shows it. -/
lemma not_mem_intercalate {c : Char} (hc : isBlank c = false) (h : ∀ w ∈ shown ls, c ∉ w) :
    c ∉ ['\n'].intercalate ls := by
  intro hmem
  obtain ⟨l, hl, hmem⟩ := (mem_of_mem_intercalate hmem).resolve_left <|
    not_mem_of_allBlank hc (by decide)
  obtain ⟨before, behind, hbefore, hbehind, hsplit⟩ := exists_trim l
  have htrim : c ∈ trim l := by
    rw [hsplit, List.mem_append, List.mem_append] at hmem
    exact (hmem.resolve_right (not_mem_of_allBlank hc hbehind)).resolve_left
      (not_mem_of_allBlank hc hbefore)
  have hshown : allBlank l = false := by
    by_contra hne
    exact not_mem_of_allBlank hc (by simpa using hne) hmem
  exact h (trim l) (List.mem_map_of_mem (List.mem_filter.2 ⟨hl, by simp [hshown]⟩)) htrim

end Shown

end ScriptedNotes.Script
