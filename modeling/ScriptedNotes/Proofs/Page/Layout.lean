import Mathlib.Data.List.TakeWhile
import ScriptedNotes.Page.Block
import ScriptedNotes.Proofs.Page.Placeholder

/-!
The blocks of a page and the placeholders in them. Blocks, lines and cells are cut at line feeds and
pipes, which no placeholder has, and what headings, items and quotes leave out is no part of one. So
laying out keeps every entry of the text except those that a table has no cell for: what stands
outside the outermost pipes of a row (`leavesOut_renderBlocks`).
-/

namespace ScriptedNotes.Page

open Text

variable {M N : Multiset (Vaulted × Nat)} {c : Char} {s t : List Char} {ss ts : List (List Char)}

/-! ### Blanks and line feeds -/

lemma isLabelChar_of_isSpace (h : isSpace c = true) : isLabelChar c = false :=
  isLabelChar_of_isBlank (isBlank_of_isSpace h)

namespace Cuts

lemma dropWhile {p : Char → Bool} (hp : ∀ c, p c = true → isLabelChar c = false)
    (h : Cuts (s.dropWhile p) ts) : Cuts s ts := by
  have hdrops := drops (w := s.takeWhile p) (fun c hc => hp c (List.mem_takeWhile_imp hc)) h
  rwa [List.takeWhile_append_dropWhile] at hdrops

lemma trimEnd (s : List Char) : Cuts s [trimEnd s] := by
  have hblank : ∀ c ∈ (s.reverse.takeWhile isBlank).reverse, isLabelChar c = false := fun c hc =>
    isLabelChar_of_isBlank (List.mem_takeWhile_imp (List.mem_reverse.1 hc))
  have hkeeps := keeps (Text.trimEnd s) (drops hblank .nil)
  rw [List.append_nil, List.append_nil] at hkeeps
  have hs : s = Text.trimEnd s ++ (s.reverse.takeWhile isBlank).reverse := by
    rw [Text.trimEnd, ← List.reverse_append, List.takeWhile_append_dropWhile, List.reverse_reverse]
  rwa [← hs] at hkeeps

lemma trim (s : List Char) : Cuts s [trim s] :=
  .dropWhile (fun _ => isLabelChar_of_isBlank) (.trimEnd _)

lemma splitOn {sep : Char} (hsep : isLabelChar sep = false) (s : List Char) :
    Cuts s (s.splitOn sep) := by
  induction s with
  | nil => exact .nil
  | cons c s ih =>
    rw [List.splitOn_cons_eq_if_modifyHead]
    split
    · next hc =>
      rw [beq_iff_eq] at hc
      exact .cut (hc ▸ hsep) ih
    · obtain ⟨t, ts, hts⟩ := List.exists_cons_of_ne_nil ih.ne_nil
      rw [hts] at ih ⊢
      exact .keep c ih

lemma pieces (s : List Char) : Cuts s (pieces s) := splitOn (by decide) s

lemma unixLines (s : List Char) : Cuts s [unixLines s] := by
  induction s using Text.unixLines.induct with
  | case1 s ih => exact .drop (by decide) (.keep '\n' ih)
  | case2 c s hc ih =>
    rw [Text.unixLines]
    · exact .keep c ih
    · exact hc
  | case3 => exact .nil

lemma squeeze (run : Nat) (s : List Char) : Cuts s [squeeze run s] := by
  induction s generalizing run with
  | nil => exact .nil
  | cons c s ih =>
    rw [Page.squeeze]
    split_ifs with hc
    · exact .keep c (ih _)
    · exact .drop (hc ▸ by decide) (ih _)
    · exact .keep c (ih _)

lemma pushFront (c : Char) (h : Cuts s ts) : Cuts (c :: s) (pushFront c ts) := by
  obtain ⟨t, ts, rfl⟩ := List.exists_cons_of_ne_nil h.ne_nil
  exact .keep c h

lemma splitBlocksFrom (inGap : Bool) (s : List Char) : Cuts s (splitBlocksFrom inGap s) := by
  have hfeed : isLabelChar '\n' = false := by decide
  induction inGap, s using Page.splitBlocksFrom.induct with
  | case1 inGap => exact .nil
  | case2 s ih =>
    unfold Page.splitBlocksFrom
    exact .drop hfeed ih
  | case3 inGap hgap s ih =>
    rw [Page.splitBlocksFrom, if_pos rfl, if_neg hgap]
    exact .cut hfeed (.drop hfeed ih)
  | case4 inGap hgap s hs ih =>
    rw [Page.splitBlocksFrom, if_pos rfl, if_neg hgap]
    · exact .pushFront _ ih
    · exact hs
  | case5 inGap c s hc ih =>
    unfold Page.splitBlocksFrom
    rw [if_neg hc]
    exact .pushFront c ih

end Cuts

lemma eq_append_of_mem_behindBlankLines (h : t ∈ behindBlankLines s) :
    ∃ blanks, s = blanks ++ t ∧ ∀ c ∈ blanks, isSpace c = true := by
  induction s with
  | nil => cases h
  | cons c s ih =>
    rw [behindBlankLines] at h
    split_ifs at h with hspace hfeed
    · rcases List.mem_append.1 h with h | h
      · obtain ⟨blanks, rfl, hblanks⟩ := ih h
        exact ⟨c :: blanks, rfl, List.forall_mem_cons.2 ⟨hspace, hblanks⟩⟩
      · obtain rfl := List.mem_singleton.1 h
        exact ⟨[c], rfl, List.forall_mem_singleton.2 hspace⟩
    · obtain ⟨blanks, rfl, hblanks⟩ := ih (by simpa using h)
      exact ⟨c :: blanks, rfl, List.forall_mem_cons.2 ⟨hspace, hblanks⟩⟩
    · cases h

lemma reserved_not_mem_of_allBlank (h : allBlank s = true) : reserved ∉ s := by
  intro hmem
  have hblank := List.all_eq_true.1 h _ hmem
  revert hblank
  decide

namespace Holds

lemma trim (h : Holds M s) : Holds M (trim s) := h.shortened (.trim s)

lemma pieces (h : Holds M s) : HoldsEach M (pieces s) := h.cuts (.pieces s)

lemma normalize (h : Holds M s) : Holds M (normalize s) := by
  have hsqueezed := (h.shortened (.unixLines s)).shortened (.squeeze 0 _)
  unfold Page.normalize
  dsimp only
  cases hbehind : (behindBlankLines (squeeze 0 (unixLines s))).head? with
  | none => exact hsqueezed
  | some t =>
    obtain ⟨blanks, he, hblanks⟩ :=
      eq_append_of_mem_behindBlankLines (List.mem_of_mem_head? hbehind)
    rw [he] at hsqueezed
    exact hsqueezed.shortened (.drops (fun c hc => isLabelChar_of_isSpace (hblanks c hc)) (.self t))

/-! ### Lines -/

lemma dropSpaces (h : Holds M s) : Holds M (s.dropWhile isSpace) :=
  h.shortened (.dropWhile (fun _ => isLabelChar_of_isSpace) (.self _))

lemma tail_of_isSpace (hc : isSpace c = true) (h : Holds M (c :: s)) : Holds M s :=
  h.tail (ne_open_of_not_isLabelChar (isLabelChar_of_isSpace hc))

lemma heading? {level : Nat} (h : Holds M s) (hs : heading? s = some (level, t)) : Holds M t := by
  have hrest : Holds M (s.dropWhile (· == '#')) :=
    h.dropWhile fun c hc => by
      rw [beq_iff_eq] at hc
      rw [hc]
      decide
  unfold Page.heading? at hs
  dsimp only at hs
  split at hs
  · next c rest hdrop =>
    rw [hdrop] at hrest
    split_ifs at hs with hform
    cases hs
    exact (hrest.tail_of_isSpace hform.2.2.1).dropSpaces.trim
  · cases hs

lemma bulletItem? (h : Holds M s) (hs : bulletItem? s = some t) : Holds M t := by
  unfold Page.bulletItem? at hs
  split at hs
  · next mark c rest =>
    split_ifs at hs with hform
    cases hs
    have hmark : mark ≠ '<' := by rcases hform.1 with rfl | rfl | rfl <;> decide
    exact ((h.tail hmark).tail_of_isSpace hform.2).dropSpaces
  · cases hs

lemma numberedItem? (h : Holds M s) (hs : numberedItem? s = some t) : Holds M t := by
  have hrest : Holds M (s.dropWhile Char.isDigit) :=
    h.dropWhile fun c hc => by
      rintro rfl
      cases hc
  unfold Page.numberedItem? at hs
  split at hs
  · next c rest hdrop =>
    rw [hdrop] at hrest
    split_ifs at hs with hform
    cases hs
    rw [not_or, Bool.not_eq_true', Bool.not_eq_false] at hform
    exact ((hrest.tail (by decide)).tail_of_isSpace hform.2).dropSpaces
  · cases hs

lemma unquote (h : Holds M s) : Holds M (unquote s) := by
  unfold Page.unquote
  split
  · split_ifs with hspace
    · exact (h.tail (by decide)).tail_of_isSpace hspace
    · exact h.tail (by decide)
  · exact h.tail (by decide)
  · exact h

lemma listItems {item? : List Char → Option (List Char)}
    (hitem : ∀ {M s t}, Holds M s → item? s = some t → Holds M t) (h : Holds M s) :
    Holds M (listItems item? s) := by
  have hlines : HoldsEach M ((Text.pieces s).filter fun line => !allBlank line) :=
    h.pieces.filter fun line hline => reserved_not_mem_of_allBlank (by simpa using hline)
  refine hlines.flatMap fun {N line} hline => ?_
  have hcontent : Holds N ((item? line).getD line) := by
    cases hl : item? line with
    | none => exact hline
    | some t => exact hitem hline hl
  exact hcontent.enclose (by decide) (by decide)

/-- A text laid out by the first form that fits keeps its entries. -/
theorem renderSegment (h : Holds M s) : Holds M (renderSegment s) := by
  unfold Page.renderSegment
  split
  · next level content hs =>
    have htag : reserved ∉ 'h' :: Nat.toDigits 10 level := by
      intro hmem
      rcases List.mem_cons.1 hmem with hmem | hmem
      · cases hmem
      · exact absurd (Nat.isDigit_of_mem_toDigits (by decide) (by decide) hmem) (by decide)
    have hopening : reserved ∉ '<' :: 'h' :: Nat.toDigits 10 level :=
      List.not_mem_cons_of_ne_of_not_mem (by decide) htag
    have hclosing : reserved ∉ '<' :: '/' :: 'h' :: Nat.toDigits 10 level :=
      List.not_mem_cons_of_ne_of_not_mem (by decide)
        (List.not_mem_cons_of_ne_of_not_mem (by decide) htag)
    have hcontent : Holds M ('>' :: content) := .char (by decide) (h.heading? hs)
    have hall := (hcontent.enclose hopening hclosing).append (.plain (s := ['>']) (by decide))
    rwa [add_zero] at hall
  · split_ifs with hbullet hnumbered hquote hrule hopen
    · exact (h.listItems bulletItem?).enclose (by decide) (by decide)
    · exact (h.listItems numberedItem?).enclose (by decide) (by decide)
    · exact ((h.pieces.map unquote).intercalate (by decide)).enclose (by decide) (by decide)
    · have hdashes : reserved ∉ s := by
        intro hmem
        rw [isRule, Bool.and_eq_true] at hrule
        exact absurd (List.all_eq_true.1 hrule.2 _ hmem) (by decide)
      rw [h.eq_zero_iff.2 hdashes]
      exact .plain (by decide)
    · exact h
    · exact h.enclose (by decide) (by decide)

end Holds

/-! ### Tables -/

/-- What stands outside the outermost pipes of a row. -/
def Table.outside (row : List Char) : List (List Char) :=
  (row.splitOn '|').take 1 ++ ((row.splitOn '|').drop 1).getLast?.toList

/-- What a table leaves out of its block. -/
def Table.leavings (block : List Char) : List (List Char) :=
  match pieces (trim block) with
  | header :: delimiter :: rows =>
    if isDelimiterRow delimiter then (header :: rows).flatMap outside else []
  | _ => []

/-- What the layout of a block leaves out of it. -/
def blockLeavings (block : List Char) : List (List Char) :=
  let block := trim block
  if block.contains '|' && block.contains '\n' then Table.leavings block else []

/-- What the layout of a text leaves out of it. -/
def leavings (text : List Char) : List (List Char) :=
  (splitBlocks (normalize text)).flatMap blockLeavings

/-- The entries of a text are in its layout or in what the layout leaves out. -/
def LeavesOut (layout : List Char → List Char) (lost : List Char → List (List Char)) : Prop :=
  ∀ ⦃M s⦄, Holds M s → ∃ K L, M = K + L ∧ Holds K (layout s) ∧ HoldsEach L (lost s)

lemma LeavesOut.map {layout : List Char → List Char} {lost : List Char → List (List Char)}
    (hlayout : LeavesOut layout lost) (h : HoldsEach M ss) :
    ∃ K L, M = K + L ∧ HoldsEach K (ss.map layout) ∧ HoldsEach L (ss.flatMap lost) := by
  induction h with
  | nil => exact ⟨0, 0, rfl, .nil, .nil⟩
  | cons hs _ ih =>
    obtain ⟨K, L, rfl, hK, hL⟩ := hlayout hs
    obtain ⟨K', L', rfl, hK', hL'⟩ := ih
    exact ⟨K + K', L + L', add_add_add_comm K L K' L', .cons hK hK', hL.append hL'⟩

namespace Table

lemma holds_cells (h : Holds M s) :
    ∃ K L, M = K + L ∧ HoldsEach K (cells s) ∧ HoldsEach L (outside s) := by
  have hcut := h.cuts (.splitOn (show isLabelChar '|' = false by decide) s)
  unfold cells outside
  generalize s.splitOn '|' = ps at hcut ⊢
  rw [← List.take_append_drop 1 ps] at hcut
  obtain ⟨first, others, rfl, hfirst, hothers⟩ := hcut.append_inv
  cases hlast : (ps.drop 1).getLast? with
  | none =>
    rw [List.getLast?_eq_none_iff] at hlast
    rw [hlast] at hothers ⊢
    cases hothers
    exact ⟨0, first, add_comm first 0, .nil, by simpa using hfirst⟩
  | some last =>
    have hsplit : ps.drop 1 = (ps.drop 1).dropLast ++ [last] := by
      rw [List.dropLast_append_getLast? last hlast]
    rw [hsplit] at hothers
    obtain ⟨K, L, rfl, hK, hL⟩ := hothers.append_inv
    exact ⟨K, first + L, add_left_comm first K L, hK.map Holds.trim, hfirst.append hL⟩

lemma holds_rowHtml (t : Table) {tag : String} (htag : reserved ∉ tag.toList)
    (h : HoldsEach M ss) : Holds M (t.rowHtml tag ss) := by
  unfold rowHtml
  generalize 0 = column
  induction h generalizing column with
  | nil => exact .nil
  | cons hs _ ih =>
    have hclass : reserved ∉ (t.alignment column).className.toList := by
      cases t.alignment column <;> decide
    rw [List.zipIdx_cons, List.flatMap_cons]
    refine .append (hs.enclose ?_ ?_) (ih _)
    · simp only [String.toList_append, List.mem_append, not_or]
      exact ⟨⟨⟨⟨by decide, htag⟩, by decide⟩, hclass⟩, by decide⟩
    · simp only [String.toList_append, List.mem_append, not_or]
      exact ⟨⟨by decide, htag⟩, by decide⟩

lemma leavesOut_row (t : Table) (tag : String) (htag : reserved ∉ tag.toList) :
    LeavesOut (fun row => t.rowHtml tag (cells row)) outside := by
  intro M s hs
  obtain ⟨K, L, rfl, hK, hL⟩ := holds_cells hs
  exact ⟨K, L, rfl, t.holds_rowHtml htag hK, hL⟩

lemma holds_html (t : Table) (hheaders : Holds M (t.rowHtml "th" t.headers))
    (hrows : HoldsEach N (t.rows.map (t.rowHtml "td"))) : Holds (M + N) t.html := by
  have hbody : Holds N
      (t.rows.flatMap fun row => "<tr>".toList ++ t.rowHtml "td" row ++ "</tr>".toList) := by
    have hlines := hrows.flatMap (f := fun row => "<tr>".toList ++ row ++ "</tr>".toList)
      fun h => h.enclose (by decide) (by decide)
    rwa [List.flatMap_map] at hlines
  rw [← add_zero (M + N)]
  refine .append (.append (hheaders.enclose ?_ ?_) hbody) (.plain ?_) <;> decide

lemma mem_dropWhile {p : Char → Bool} (hp : p c = false) (h : c ∈ s) : c ∈ s.dropWhile p := by
  rw [← List.takeWhile_append_dropWhile (p := p) (l := s), List.mem_append] at h
  rcases h with h | h
  · rw [List.mem_takeWhile_imp h] at hp
    cases hp
  · exact h

lemma reserved_not_mem_of_isDelimiterRow (h : isDelimiterRow s = true) : reserved ∉ s := by
  intro hmem
  have hspace : isSpace reserved = false := by decide
  have hinner : reserved ∈ ((s.dropWhile isSpace).reverse.dropWhile isSpace).reverse :=
    List.mem_reverse.2 (mem_dropWhile hspace (List.mem_reverse.2 (mem_dropWhile hspace hmem)))
  unfold isDelimiterRow at h
  dsimp only at h
  rw [Bool.and_eq_true] at h
  exact absurd (List.all_eq_true.1 h.2 _ hinner) (by decide)

/-- A table keeps the entries in its cells. -/
lemma leavesOut_renderTable : LeavesOut renderTable leavings := by
  intro M block h
  have hlines := h.trim.pieces
  unfold renderTable parse? leavings
  generalize pieces (trim block) = ls at hlines
  match ls with
  | [] | [_] => exact ⟨M, 0, (add_zero M).symm, h, .nil⟩
  | header :: delimiter :: rows =>
    obtain ⟨H, R, rfl, hheader, hrest⟩ := hlines.cons_inv
    obtain ⟨D, R, rfl, hdelimiter, hrows⟩ := hrest.cons_inv
    dsimp only
    split_ifs with hrow
    · obtain rfl := hdelimiter.eq_zero_iff.2 (reserved_not_mem_of_isDelimiterRow hrow)
      generalize ht : (⟨cells header, alignmentsOf delimiter, rows.map cells⟩ : Table) = t
      obtain ⟨K, L, rfl, hK, hL⟩ := leavesOut_row t "th" (by decide) hheader
      obtain ⟨K', L', rfl, hK', hL'⟩ := (leavesOut_row t "td" (by decide)).map hrows
      refine ⟨K + K', L + L', ?_, t.holds_html ?_ ?_, hL.append hL'⟩
      · rw [zero_add, add_add_add_comm]
      · rwa [← ht] at hK ⊢
      · rw [← ht] at hK' ⊢
        rwa [List.map_map]
    · exact ⟨_, 0, (add_zero _).symm, h, .nil⟩

end Table

/-! ### Blocks -/

lemma leavesOut_renderBlock : LeavesOut renderBlock blockLeavings := by
  intro M block h
  have htrim := h.trim
  unfold renderBlock blockLeavings
  dsimp only
  generalize trim block = b at htrim
  by_cases htable : (b.contains '|' && b.contains '\n') = true
  · have hempty : b.isEmpty = false := by
      rw [List.isEmpty_eq_false_iff]
      rintro rfl
      cases htable
    rw [if_neg (by simp [hempty]), if_pos htable, if_pos htable]
    exact Table.leavesOut_renderTable htrim
  · rw [if_neg htable, if_neg htable]
    refine ⟨M, 0, (add_zero M).symm, ?_, .nil⟩
    split_ifs with hempty hlines
    · rw [List.isEmpty_iff] at hempty
      rwa [hempty] at htrim
    · exact (htrim.pieces.map Holds.renderSegment).intercalate (by decide)
    · exact htrim.renderSegment

/-- **Laying out blocks keeps every entry of a text but those that tables leave out.** -/
theorem leavesOut_renderBlocks : LeavesOut renderBlocks leavings := by
  intro M s h
  have hblocks := h.normalize.cuts (.splitBlocksFrom false _)
  obtain ⟨K, L, rfl, hK, hL⟩ := leavesOut_renderBlock.map hblocks
  exact ⟨K, L, rfl, hK.intercalate (by decide), hL⟩

end ScriptedNotes.Page
