import Mathlib.Data.List.TakeWhile
import ScriptedNotes.Proofs.Text.LineEnds

/-!
Trimming. A text is its trimmed text with blanks around it; blanks that are put around it are not
seen by trimming, and what does not begin or end with a blank stays as it is.
-/

namespace ScriptedNotes.Text

variable {c : Char} {s before behind : List Char}

lemma not_mem_of_allBlank (hc : isBlank c = false) (h : allBlank s = true) : c ∉ s := by
  intro hmem
  rw [List.all_eq_true.1 h c hmem] at hc
  cases hc

lemma trimStart_append (hbefore : allBlank before = true) (s : List Char) :
    trimStart (before ++ s) = trimStart s :=
  List.dropWhile_append_of_pos (List.all_eq_true.1 hbefore)

lemma trimStart_cons (hc : isBlank c = false) (s : List Char) : trimStart (c :: s) = c :: s :=
  List.dropWhile_cons_of_neg (by simp [hc])

lemma trim_append (hbefore : allBlank before = true) (s : List Char) :
    trim (before ++ s) = trim s := by
  rw [trim, trimStart_append hbefore, trim]

lemma trim_append_blanks (hbehind : allBlank behind = true) (s : List Char) :
    trim (s ++ behind) = trim s := by
  induction behind using List.reverseRecOn with
  | nil => rw [List.append_nil]
  | append_singleton behind c ih =>
    rw [allBlank, List.all_append, Bool.and_eq_true, List.all_cons, List.all_nil, Bool.and_true]
      at hbehind
    rw [← List.append_assoc, trim_concat_of_isBlank hbehind.2, ih hbehind.1]

lemma trimEnd_append_cons (hc : isBlank c = false) (s t : List Char) :
    trimEnd (s ++ c :: t) = s ++ c :: trimEnd t := by
  induction t using List.reverseRecOn with
  | nil =>
    rw [trimEnd_concat, hc]
    rfl
  | append_singleton t d ih =>
    rw [← List.cons_append, ← List.append_assoc, trimEnd_concat, trimEnd_concat, ih]
    split_ifs <;> simp

/-- A text is what trimming its start leaves behind some blanks. -/
lemma exists_trimStart (s : List Char) :
    ∃ before, allBlank before = true ∧ s = before ++ trimStart s :=
  ⟨s.takeWhile isBlank, List.all_eq_true.2 fun _ hc => List.mem_takeWhile_imp hc,
    List.takeWhile_append_dropWhile.symm⟩

lemma exists_trimEnd (s : List Char) :
    ∃ behind, allBlank behind = true ∧ s = trimEnd s ++ behind := by
  obtain ⟨before, hbefore, he⟩ := exists_trimStart s.reverse
  refine ⟨before.reverse, by rwa [allBlank, List.all_reverse], ?_⟩
  have hs := congrArg List.reverse he
  rwa [List.reverse_reverse, List.reverse_append] at hs

/-- A text is its trimmed text with blanks around it. -/
lemma exists_trim (s : List Char) : ∃ before behind, allBlank before = true ∧
    allBlank behind = true ∧ s = before ++ trim s ++ behind := by
  obtain ⟨before, hbefore, hs⟩ := exists_trimStart s
  obtain ⟨behind, hbehind, he⟩ := exists_trimEnd (trimStart s)
  refine ⟨before, behind, hbefore, hbehind, ?_⟩
  rw [List.append_assoc, trim, ← he, ← hs]

lemma trim_trim (s : List Char) : trim (trim s) = trim s := by
  obtain ⟨before, behind, hbefore, hbehind, he⟩ := exists_trim s
  conv_rhs => rw [he, trim_append_blanks hbehind, trim_append hbefore]

lemma trim_of_allBlank (h : allBlank s = true) : trim s = [] := by
  rw [← List.append_nil s, trim_append h]
  rfl

end ScriptedNotes.Text
