import ScriptedNotes.Proofs.Page.TableWriting

/-!
The alignments of the columns of a table. They are those of the delimiters that are not blank, so a
blank delimiter moves those behind it one column to the left. Every column has the alignment of its
own delimiter just when behind each blank one all ask for left (`columns_aligned_iff`).
-/

namespace ScriptedNotes.Page

open Text

namespace Alignment

variable {d e : List Char} {ds : List (List Char)}

lemma ofDelimiter_of_allBlank (h : allBlank d = true) : ofDelimiter d = .left := by
  unfold ofDelimiter
  rw [trim_of_allBlank h]
  rfl

/-- The alignments of the delimiters that are not blank. -/
def ofVisible (ds : List (List Char)) : List Alignment :=
  (ds.filter fun d => !allBlank d).map ofDelimiter

lemma ofVisible_blank (h : allBlank d = true) (ds : List (List Char)) :
    ofVisible (d :: ds) = ofVisible ds := by
  unfold ofVisible
  rw [List.filter_cons_of_neg (by simp [h])]

lemma ofVisible_visible (h : allBlank d = false) (ds : List (List Char)) :
    ofVisible (d :: ds) = ofDelimiter d :: ofVisible ds := by
  unfold ofVisible
  rw [List.filter_cons_of_pos (by simp [h]), List.map_cons]

/-- Each delimiter is heeded in its own column; columns without an alignment are aligned left. -/
def Heeded (as : List Alignment) (ds : List (List Char)) : Prop :=
  ∀ (i : Nat) (d : List Char), ds[i]? = some d → as[i]?.getD .left = ofDelimiter d

lemma heeded_cons_iff {a : Alignment} {as : List Alignment} :
    Heeded (a :: as) (d :: ds) ↔ a = ofDelimiter d ∧ Heeded as ds := by
  constructor
  · intro h
    exact ⟨h 0 d rfl, fun i e he => h (i + 1) e he⟩
  · rintro ⟨ha, h⟩ i e he
    cases i with
    | zero =>
      cases he
      exact ha
    | succ i => exact h i e he

lemma eq_left_of_mem_ofVisible {a : Alignment} (h : ∀ e ∈ ds, ofDelimiter e = .left)
    (ha : a ∈ ofVisible ds) : a = .left := by
  obtain ⟨e, he, rfl⟩ := List.mem_map.1 ha
  exact h e (List.mem_of_mem_filter he)

lemma exists_first_not_left (h : ¬ ∀ e ∈ ds, ofDelimiter e = .left) :
    ∃ before e behind, ds = before ++ e :: behind ∧ ofDelimiter e ≠ .left ∧
      ∀ f ∈ before, ofDelimiter f = .left := by
  cases hfind : ds.find? (fun e => decide (ofDelimiter e ≠ .left)) with
  | none =>
    refine absurd (fun e he => ?_) h
    simpa using List.find?_eq_none.1 hfind e he
  | some e =>
    obtain ⟨hask, before, behind, he, hbefore⟩ := List.find?_eq_some_iff_append.1 hfind
    exact ⟨before, e, behind, he, by simpa using hask, fun f hf => by simpa using hbefore f hf⟩

lemma getElem?_ofVisible {before behind : List (List Char)} (h : allBlank e = false) :
    (ofVisible (before ++ e :: behind))[(ofVisible before).length]? = some (ofDelimiter e) := by
  unfold ofVisible
  rw [List.filter_append, List.filter_cons_of_pos (by simp [h]), List.map_append, List.map_cons,
    List.getElem?_append_right (le_refl _), Nat.sub_self]
  rfl

/-- With a blank delimiter in front, the others are heeded only if all ask for left: the first one
that does not would be heeded too far to the left. -/
lemma heeded_blank_iff (h : allBlank d = true) :
    Heeded (ofVisible ds) (d :: ds) ↔ ∀ e ∈ ds, ofDelimiter e = .left := by
  constructor
  · intro hheeded
    by_contra hleft
    obtain ⟨before, e, behind, rfl, hask, hbefore⟩ := exists_first_not_left hleft
    have hvisible : allBlank e = false := by
      by_contra hblank
      exact hask (ofDelimiter_of_allBlank (by simpa using hblank))
    -- The delimiter is heeded in the column where those before it end once the blank is gone.
    have hlt : (ofVisible before).length < (d :: before).length := by
      unfold ofVisible
      rw [List.length_map, List.length_cons]
      exact Nat.lt_succ_of_le (List.length_filter_le _ _)
    have hf := List.getElem?_eq_getElem hlt
    have hown := hheeded _ _ (by rw [← List.cons_append, List.getElem?_append_left hlt, hf])
    rw [getElem?_ofVisible hvisible, Option.getD_some] at hown
    refine hask (hown.trans ?_)
    rcases List.mem_cons.1 (List.mem_of_getElem? hf) with he | hmem
    · rw [he]
      exact ofDelimiter_of_allBlank h
    · exact hbefore _ hmem
  · intro hleft i e he
    have hasked : ofDelimiter e = .left := by
      rcases List.mem_cons.1 (List.mem_of_getElem? he) with rfl | hmem
      · exact ofDelimiter_of_allBlank h
      · exact hleft e hmem
    rw [hasked]
    cases ha : (ofVisible ds)[i]? with
    | none => rfl
    | some a => exact eq_left_of_mem_ofVisible hleft (List.mem_of_getElem? ha)

/-- Behind a blank delimiter every one asks for left. -/
def LeftBehindBlank (ds : List (List Char)) : Prop :=
  ds.Pairwise fun d e => allBlank d = true → ofDelimiter e = .left

lemma heeded_ofVisible_iff : Heeded (ofVisible ds) ds ↔ LeftBehindBlank ds := by
  induction ds with
  | nil => exact iff_of_true (fun _ _ he => by cases he) .nil
  | cons d ds ih =>
    unfold LeftBehindBlank at ih ⊢
    rw [List.pairwise_cons]
    by_cases hblank : allBlank d = true
    · rw [ofVisible_blank hblank, heeded_blank_iff hblank]
      refine ⟨fun hleft => ⟨fun e he _ => hleft e he, ?_⟩, fun h e he => h.1 e he hblank⟩
      exact List.pairwise_of_forall_mem_list fun _ _ e he _ => hleft e he
    · rw [ofVisible_visible (by simpa using hblank), heeded_cons_iff, ih]
      exact ⟨fun h => ⟨fun _ _ h' => absurd h' hblank, h.2⟩, fun h => ⟨rfl, h.2⟩⟩

end Alignment

namespace Table

variable {block header lead trail : List Char} {ds rows : List (List Char)}

/-- Each column of a table is aligned as its own delimiter asks, and left where that is blank. -/
def AlignedBy (t : Table) (ds : List (List Char)) : Prop :=
  ∀ (i : Nat) (d : List Char), ds[i]? = some d →
    t.alignment i = .ofDelimiter d ∧ (allBlank d = true → t.alignment i = .left)

lemma alignedBy_iff {t : Table} : t.AlignedBy ds ↔ Alignment.Heeded t.alignments ds := by
  constructor
  · exact fun h i d hd => (h i d hd).1
  · intro h i d hd
    have hown : t.alignment i = .ofDelimiter d := h i d hd
    exact ⟨hown, fun hblank => hown.trans (Alignment.ofDelimiter_of_allBlank hblank)⟩

/-- **Every column of a table has the alignment of its own delimiter just when behind each blank
delimiter all ask for left.** All rows of the table are laid out with the same alignments. -/
theorem columns_aligned_iff
    (hlines : pieces (trim block) = header :: (lead ++ writeRow ds ++ trail) :: rows)
    (hlead : ∀ c ∈ lead, isSpace c = true) (htrail : ∀ c ∈ trail, isSpace c = true)
    (hpipe : ∀ d ∈ ds, '|' ∉ d) (haccepted : isDelimiterRow (lead ++ writeRow ds ++ trail) = true) :
    ∃ t, parse? block = some t ∧
      renderTable block = tableElement t.alignment (cells header) (rows.map cells) ∧
      (t.AlignedBy ds ↔ Alignment.LeftBehindBlank ds) := by
  have hparse : parse? block =
      some ⟨cells header, Alignment.ofVisible ds, rows.map cells⟩ := by
    unfold parse?
    rw [hlines]
    dsimp only
    rw [if_pos haccepted, alignmentsOf_writeRow hlead htrail hpipe]
    rfl
  refine ⟨_, hparse, ?_, ?_⟩
  · unfold renderTable
    rw [hparse]
    exact html_eq _
  · rw [alignedBy_iff]
    exact Alignment.heeded_ofVisible_iff

/-- A table with blank delimiters behind the others. -/
def trailingBlanks : List Char :=
  "| a | b | c |\n |:-:|--:|   |\t\n| 1 | 2 | 3 |".toList

theorem columns_aligned_iff_trailingBlanks :
    pieces (trim trailingBlanks) = "| a | b | c |".toList ::
        (" ".toList ++ writeRow [":-:".toList, "--:".toList, "   ".toList] ++ "\t".toList) ::
        ["| 1 | 2 | 3 |".toList] ∧
      Alignment.LeftBehindBlank [":-:".toList, "--:".toList, "   ".toList] ∧
      ∃ t, parse? trailingBlanks = some t ∧
        renderTable trailingBlanks =
          tableElement t.alignment (cells "| a | b | c |".toList)
            (["| 1 | 2 | 3 |".toList].map cells) ∧
        (t.AlignedBy [":-:".toList, "--:".toList, "   ".toList] ↔
          Alignment.LeftBehindBlank [":-:".toList, "--:".toList, "   ".toList]) := by
  have hlines : pieces (trim trailingBlanks) = "| a | b | c |".toList ::
      (" ".toList ++ writeRow [":-:".toList, "--:".toList, "   ".toList] ++ "\t".toList) ::
      ["| 1 | 2 | 3 |".toList] := by decide
  exact ⟨hlines, by unfold Alignment.LeftBehindBlank; decide,
    columns_aligned_iff hlines (List.all_eq_true.1 rfl) (List.all_eq_true.1 rfl) (by decide)
      (by decide)⟩

/-- A table of which the first delimiter is blank. -/
def leadingBlank : List Char :=
  "| a | b |\n|   |--:|\n| 1 | 2 |".toList

/-- The second delimiter is heeded in the first column. -/
theorem leadingBlank_moves_alignment :
    pieces (trim leadingBlank) = ["| a | b |".toList, writeRow ["   ".toList, "--:".toList],
        "| 1 | 2 |".toList] ∧
      isDelimiterRow (writeRow ["   ".toList, "--:".toList]) = true ∧
      ∃ t, parse? leadingBlank = some t ∧ t.alignment 0 = .right ∧ t.alignment 1 = .left ∧
        ¬ t.AlignedBy ["   ".toList, "--:".toList] := by
  refine ⟨by decide, by decide,
    ⟨["a".toList, "b".toList], [.right], [["1".toList, "2".toList]]⟩, by rfl, rfl, rfl, ?_⟩
  intro haligned
  have hfirst := (haligned 0 "   ".toList rfl).2 (by decide)
  cases hfirst

end Table

end ScriptedNotes.Page
