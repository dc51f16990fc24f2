import ScriptedNotes.Proofs.Page.Scripts
import ScriptedNotes.Proofs.Text.Trimming

/-!
Where a script ends. Behind the tag of a script all blank lines are passed over before a closing
mark is looked for, so a closing mark that only blank lines stand before is taken for the source
when there is another one below. In all other cases a script ends at its first closing mark
(`scripts_end_first_iff`).
-/

namespace ScriptedNotes.Page

open Text

variable {s t w mark source rest blanks before after lexeme : List Char}

/-! ### Lines that begin with a mark -/

/-- What has no line feed and begins a text begins its first line. -/
lemma prefix_of_prefix_append_feed (hmark : '\n' ∉ mark) (h : mark <+: w ++ '\n' :: t) :
    mark <+: w := by
  rcases List.prefix_or_prefix_of_prefix h (List.prefix_append w _) with hw | ⟨u, rfl⟩
  · exact hw
  · rw [List.prefix_append_right_inj] at h
    match u with
    | [] => exact (List.append_nil w).symm ▸ List.prefix_refl _
    | d :: u =>
      rw [(List.cons_prefix_cons.1 h).1] at hmark
      exact absurd (List.mem_append_right w List.mem_cons_self) hmark

lemma prefix_takeWhile_iff (hmark : '\n' ∉ mark) :
    mark <+: s.takeWhile (· ≠ '\n') ↔ mark <+: s := by
  refine ⟨fun h => h.trans (List.takeWhile_prefix _), ?_⟩
  rintro ⟨t, rfl⟩
  have hall : ∀ c ∈ mark, decide (c ≠ '\n') = true := fun c hc =>
    decide_eq_true fun he => hmark (he ▸ hc)
  rw [List.takeWhile_append_of_pos hall]
  exact List.prefix_append _ _

lemma pieces_eq_cons (s : List Char) :
    pieces s = s.takeWhile (· ≠ '\n') :: (pieces s).tail := by
  induction s with
  | nil => rfl
  | cons c s ih =>
    rw [pieces, List.splitOn_cons_eq_if_modifyHead, ← pieces]
    by_cases hc : c = '\n'
    · simp [hc]
    · rw [if_neg (by simpa using hc), ih]
      simp [hc]

/-- Below the first line one begins with the mark just when the mark follows a line feed. -/
theorem exists_line_iff (hmark : '\n' ∉ mark) :
    (∃ line ∈ (pieces s).tail, mark <+: line) ↔ '\n' :: mark <:+: s := by
  induction s with
  | nil => simp [pieces]
  | cons c s ih =>
    rw [List.infix_cons_iff, List.cons_prefix_cons, pieces, List.splitOn_cons_eq_if_modifyHead,
      ← pieces]
    by_cases hc : c = '\n'
    · rw [if_pos (by simpa using hc), List.tail_cons, pieces_eq_cons, List.exists_mem_cons_iff, ih,
        prefix_takeWhile_iff hmark]
      simp [hc]
    · rw [if_neg (by simpa using hc), pieces_eq_cons, List.modifyHead_cons, List.tail_cons, ih]
      simp [Ne.symm hc]

lemma forall_line_iff (hmark : '\n' ∉ mark) :
    (∀ line ∈ (pieces s).tail, ¬ mark <+: line) ↔ ¬ '\n' :: mark <:+: s := by
  rw [← exists_line_iff hmark]
  simp

/-- A text without a line feed in front changes nothing. -/
lemma feed_infix_append_iff (hw : '\n' ∉ w) : '\n' :: mark <:+: w ++ s ↔ '\n' :: mark <:+: s := by
  rw [← not_iff_not, ← cut_eq_none_iff, ← cut_eq_none_iff, cut_skip hw, Option.map_eq_none_iff]

/-! ### Marks are not blank -/

section

variable (hmark : mark = fenceMark ∨ mark = colonMark)
include hmark

lemma feed_not_mem_mark : '\n' ∉ mark ++ scriptTag := by
  rcases hmark with rfl | rfl <;> decide

lemma isBlank_of_mem_mark {c : Char} (h : c ∈ mark) : isBlank c = false := by
  have hall : mark.all (fun c => !isBlank c) = true := by rcases hmark with rfl | rfl <;> rfl
  simpa using List.all_eq_true.1 hall c h

lemma exists_mark_eq : ∃ c m, mark = c :: m ∧ isSpace c = false := by
  rcases hmark with rfl | rfl
  · exact ⟨_, _, rfl, by decide⟩
  · exact ⟨_, _, rfl, by decide⟩

/-- Below blanks a line begins with the mark only if it does so behind them. -/
lemma feed_mark_infix_iff (hblanks : ∀ c ∈ blanks, isSpace c = true) :
    '\n' :: mark <:+: blanks ++ '\n' :: s ↔ mark <+: s ∨ '\n' :: mark <:+: s := by
  induction blanks with
  | nil => rw [List.nil_append, List.infix_cons_iff, List.cons_prefix_cons, and_iff_right rfl]
  | cons c blanks ih =>
    obtain ⟨-, hblanks⟩ := List.forall_mem_cons.1 hblanks
    have hnot : ¬ '\n' :: mark <+: c :: (blanks ++ '\n' :: s) := by
      obtain ⟨d, m, rfl, hd⟩ := exists_mark_eq hmark
      rw [List.cons_prefix_cons]
      rintro ⟨-, h⟩
      match blanks with
      | [] =>
        rw [(List.cons_prefix_cons.1 h).1] at hd
        cases hd
      | e :: blanks =>
        rw [(List.cons_prefix_cons.1 h).1, hblanks e List.mem_cons_self] at hd
        cases hd
    rw [List.cons_append, List.infix_cons_iff, or_iff_right hnot, ih hblanks]

/-- A mark in front of a text stays there when the text is trimmed. -/
lemma mark_prefix_trim (h : mark <+: source) : mark <+: trim source := by
  obtain ⟨w, rfl⟩ := h
  have hne : mark ≠ [] := by rcases hmark with rfl | rfl <;> exact List.cons_ne_nil _ _
  have hstart : trimStart (mark ++ w) = mark ++ w := by
    obtain ⟨c, m, rfl⟩ := List.exists_cons_of_ne_nil hne
    exact trimStart_cons (isBlank_of_mem_mark hmark (List.mem_cons_self (a := c))) _
  have hend : trimEnd (mark ++ w) = mark ++ trimEnd w := by
    obtain ⟨m, c, rfl⟩ := (List.eq_nil_or_concat mark).resolve_left hne
    have hc : isBlank c = false := isBlank_of_mem_mark hmark (by simp)
    rw [List.concat_append, trimEnd_append_cons hc, List.concat_append]
  rw [trim, hstart, hend]
  exact List.prefix_append _ _

end

lemma trim_blanks (hblanks : ∀ c ∈ blanks, isSpace c = true) (s : List Char) :
    trim (blanks ++ '\n' :: s) = trim s := by
  have hall : allBlank (blanks ++ ['\n']) = true := by
    rw [allBlank, List.all_append, List.all_eq_true.2 fun c hc => isBlank_of_isSpace (hblanks c hc)]
    decide
  rw [List.append_cons, trim_append hall]

/-! ### Behind the blank lines -/

/-- The text on the first line that is not blank is the first place that is tried. -/
lemma head?_behindBlankLines (hblanks : ∀ c ∈ blanks, isSpace c = true)
    (hhead : ∀ c ∈ t.head?, isSpace c = false) :
    (behindBlankLines (blanks ++ '\n' :: t)).head? = some t := by
  induction blanks with
  | nil =>
    have hnone : behindBlankLines t = [] := by
      cases t with
      | nil => rfl
      | cons c t => rw [behindBlankLines, if_neg (by simp [hhead c rfl])]
    rw [List.nil_append, behindBlankLines, hnone]
    rfl
  | cons c blanks ih =>
    obtain ⟨hc, hblanks⟩ := List.forall_mem_cons.1 hblanks
    rw [List.cons_append, behindBlankLines, if_pos hc, List.head?_append, ih hblanks]
    rfl

/-- Nothing but blanks stands before the first closing mark of a script, and there is another one
below. -/
def Hollow (mark before after : List Char) : Prop :=
  (∀ c ∈ before, isSpace c = true) ∧ '\n' :: mark <:+: after

/-- Then the first closing mark is taken for the beginning of the source. -/
lemma Hollow.mark_prefix_source (hmark : mark = fenceMark ∨ mark = colonMark)
    (h : Hollow mark before after)
    (hread : scriptBetween mark (mark ++ scriptTag ++ (before ++ '\n' :: (mark ++ after))) =
      some (source, rest)) : mark <+: source := by
  obtain ⟨hbefore, hafter⟩ := h
  obtain ⟨c, m, hm, hc⟩ := exists_mark_eq hmark
  have hhead : (behindBlankLines (before ++ '\n' :: (mark ++ after))).head? =
      some (mark ++ after) := by
    refine head?_behindBlankLines hbefore fun d hd => ?_
    rw [hm] at hd
    cases hd
    exact hc
  obtain ⟨others, hothers⟩ := List.head?_eq_some_iff.1 hhead
  match hcut : cut ('\n' :: mark) (mark ++ after) with
  | none =>
    exact absurd (hafter.trans (List.suffix_append mark after).isInfix) (cut_eq_none_iff.1 hcut)
  | some (found, behind) =>
    simp only [scriptBetween, after?_eq_some_iff.2 rfl, bind, Option.bind_some, hothers,
      List.findSome?_cons, hcut, Option.some.injEq, Prod.mk.injEq] at hread
    obtain ⟨rfl, -⟩ := hread
    have hfeed : '\n' ∉ mark := fun hmem => feed_not_mem_mark hmark (List.mem_append_left _ hmem)
    refine prefix_of_prefix_append_feed hfeed (t := mark ++ behind) ⟨after, ?_⟩
    rw [cut_eq_some hcut]
    simp

/-! ### Scripts with the text that they take up -/

/-- What a piece of a scan covers and what was read there, if it is a hit. -/
def hit? {α : Type} : Piece α → Option (List Char × α)
  | .plain _ => none
  | .hit lexeme found => some (lexeme, found)

/-- The scripts of a note in order, each with the text from its opening mark to its closing one. -/
def scriptSpans (text : List Char) : List (List Char × ScriptBlock) :=
  (((scan scriptPattern text).filterMap hit?).zipIdx).map fun ((lexeme, source), n) =>
    (lexeme, .ofSource n source)

/-- The lines of a script between that of its opening mark and the closing mark. -/
def innerLines (lexeme : List Char) : List (List Char) :=
  (pieces lexeme).tail.dropLast

lemma map_snd_scriptSpans (text : List Char) :
    (scriptSpans text).map Prod.snd = scriptBlocks text := by
  have hfound : Piece.found? = fun p : Piece (List Char) => (hit? p).map Prod.snd := by
    funext p
    cases p <;> rfl
  rw [scriptSpans, scriptBlocks, finds, hfound, ← List.map_filterMap, List.zipIdx_map,
    List.map_map, List.map_map]
  rfl

lemma exists_of_mem_scriptSpans {block : ScriptBlock} (h : (lexeme, block) ∈ scriptSpans s) :
    ∃ (m : MarkedScript) (rest : List Char), lexeme = m.text ∧ block.source = trim m.source ∧
      lexeme ++ rest <:+ s ∧ scriptBetween m.mark (m.text ++ rest) = some (m.source, rest) := by
  obtain ⟨⟨⟨lexeme', source⟩, n⟩, hmem, he⟩ := List.mem_map.1 h
  cases he
  have hhit := (List.mem_zipIdx' hmem).2 ▸ List.getElem_mem _
  obtain ⟨piece, hpiece, hfound⟩ := List.mem_filterMap.1 hhit
  cases piece with
  | plain c => cases hfound
  | hit lexeme' source' =>
    cases hfound
    obtain ⟨rest, hsuffix, hread⟩ := mem_scan advances_scriptPattern hpiece
    obtain ⟨m, rfl, he, hbetween⟩ := exists_marked hread
    rw [he] at hbetween
    exact ⟨m, rest, List.append_cancel_right he, rfl, hsuffix, hbetween⟩

namespace MarkedScript

variable (m : MarkedScript)

lemma feed_not_mem : '\n' ∉ m.mark :=
  fun h => feed_not_mem_mark m.mark_eq (List.mem_append_left _ h)

/-- Below the blank lines a line begins with the mark only if the source does. -/
lemma infix_source_iff :
    '\n' :: m.mark <:+: m.blanks ++ '\n' :: m.source ↔ m.mark <+: m.source := by
  rw [feed_mark_infix_iff m.mark_eq m.isSpace_blanks, or_iff_left]
  rintro ⟨u, v, huv⟩
  have hend := m.endsFirst u (v ++ '\n' :: m.mark) (by rw [← huv]; simp)
  simp at hend

/-- The source is all that can hold a line with the mark, and only as its first line. -/
lemma innerLines_text_iff :
    (∀ line ∈ innerLines m.text, ¬ m.mark <+: line) ↔ ¬ m.mark <+: m.source := by
  have hlines : innerLines m.text =
      (pieces (m.mark ++ scriptTag ++ (m.blanks ++ '\n' :: m.source))).tail := by
    have htext : m.text =
        m.mark ++ scriptTag ++ (m.blanks ++ '\n' :: m.source) ++ '\n' :: m.mark := by
      simp [text]
    rw [innerLines, htext, pieces, List.splitOn_append_cons_self,
      List.splitOn_eq_singleton m.feed_not_mem, ← pieces, pieces_eq_cons, List.cons_append,
      List.tail_cons, List.dropLast_concat, List.tail_cons]
  rw [hlines, forall_line_iff m.feed_not_mem, feed_infix_append_iff (feed_not_mem_mark m.mark_eq),
    m.infix_source_iff]

end MarkedScript

/-- **Where scripts end.** Take any script of a note, with the text `before` that stands between its
tag and the first line below that begins with the mark again. No line inside of the script begins
with its mark, just when it is not the case that `before` is blank and another closing mark follows.
Then the script is what stands before that line; in that case the line with the mark is the first
one of the script. -/
theorem scripts_end_first_iff (text : List Char) :
    (scriptSpans text).map Prod.snd = scriptBlocks text ∧
    ∀ lexeme block, (lexeme, block) ∈ scriptSpans text →
      ∃ mark before after rest, (mark = fenceMark ∨ mark = colonMark) ∧
        lexeme ++ rest <:+ text ∧
        lexeme ++ rest = mark ++ scriptTag ++ (before ++ '\n' :: (mark ++ after)) ∧
        (∀ line ∈ (pieces before).tail, ¬ mark <+: line) ∧
        ((∀ line ∈ innerLines lexeme, ¬ mark <+: line) ↔ ¬ Hollow mark before after) ∧
        (¬ Hollow mark before after → rest = after ∧ block.source = trim before) ∧
        (Hollow mark before after → mark <+: block.source) := by
  refine ⟨map_snd_scriptSpans text, fun lexeme block hmem => ?_⟩
  obtain ⟨m, rest, rfl, hblock, hsuffix, hread⟩ := exists_of_mem_scriptSpans hmem
  by_cases hfirst : m.mark <+: m.source
  · obtain ⟨w, hw⟩ := hfirst
    have hollow : Hollow m.mark m.blanks (w ++ '\n' :: (m.mark ++ rest)) :=
      ⟨m.isSpace_blanks, w, rest, by simp⟩
    refine ⟨m.mark, m.blanks, _, rest, m.mark_eq, hsuffix, ?_, fun line hline hbegins => ?_, ?_,
      fun h => absurd hollow h, fun _ => ?_⟩
    · rw [MarkedScript.text, ← hw]
      simp
    · obtain ⟨c, mark, hm, hc⟩ := exists_mark_eq m.mark_eq
      rw [hm] at hbegins
      have hblank : c ∈ m.blanks :=
        subset_of_mem_splitOn (List.mem_of_mem_tail hline) (hbegins.subset List.mem_cons_self)
      rw [m.isSpace_blanks c hblank] at hc
      cases hc
    · rw [m.innerLines_text_iff]
      exact not_congr ⟨fun _ => hollow, fun _ => ⟨w, hw⟩⟩
    · rw [hblock]
      exact mark_prefix_trim m.mark_eq ⟨w, hw⟩
  · have htext : m.text ++ rest =
        m.mark ++ scriptTag ++ (m.blanks ++ '\n' :: m.source ++ '\n' :: (m.mark ++ rest)) := by
      simp [MarkedScript.text]
    have hsolid : ¬ Hollow m.mark (m.blanks ++ '\n' :: m.source) rest := fun hollow =>
      hfirst (hollow.mark_prefix_source m.mark_eq (htext ▸ hread))
    have hlines := mt m.infix_source_iff.1 hfirst
    refine ⟨m.mark, m.blanks ++ '\n' :: m.source, rest, rest, m.mark_eq, hsuffix, htext,
      (forall_line_iff m.feed_not_mem).2 hlines, ?_, fun _ => ⟨rfl, ?_⟩, fun h => absurd h hsolid⟩
    · rw [m.innerLines_text_iff]
      exact iff_of_true hfirst hsolid
    · rw [hblock, trim_blanks m.isSpace_blanks]

/-- A script with a blank line in front of its source, and a mark below it. -/
def airyScript : List Char :=
  "text\n:::automation\n\nprint 1\n:::\nprint 2\n:::".toList

theorem scripts_end_first_iff_airyScript :
    (":::automation\n\nprint 1\n:::".toList, ScriptBlock.ofSource 0 "print 1".toList) ∈
        scriptSpans airyScript ∧
      ∀ line ∈ innerLines ":::automation\n\nprint 1\n:::".toList, ¬ colonMark <+: line := by
  have hscan : (scan scriptPattern airyScript).filterMap hit? =
      [(":::automation\n\nprint 1\n:::".toList, "print 1".toList)] := by decide +kernel
  have hmem : (":::automation\n\nprint 1\n:::".toList,
      ScriptBlock.ofSource 0 "print 1".toList) ∈ scriptSpans airyScript := by
    rw [scriptSpans, hscan]
    exact List.mem_cons_self
  obtain ⟨mark, before, after, rest, hmark, -, he, -, hiff, -, hfirst⟩ :=
    (scripts_end_first_iff airyScript).2 _ _ hmem
  rcases hmark with rfl | rfl
  · cases he
  · have hsource : ¬ colonMark <+: (ScriptBlock.ofSource 0 "print 1".toList).source := by
      rw [ScriptBlock.ofSource]
      decide +kernel
    exact ⟨hmem, hiff.2 (mt hfirst hsource)⟩

/-- A script without a source, and a fence below it. -/
def hollowScript : List Char :=
  "```automation\n\n```\nprint 1\n```".toList

/-- Its closing mark is not where it ends: the text behind that mark becomes its source. -/
theorem hollowScript_runs_on :
    scriptBlocks hollowScript = [.ofSource 0 "```\nprint 1".toList] ∧
      (scriptSpans hollowScript).map Prod.fst = [hollowScript] ∧
      ∃ line ∈ innerLines hollowScript, fenceMark <+: line := by
  have hscan : (scan scriptPattern hollowScript).filterMap hit? =
      [(hollowScript, "```\nprint 1".toList)] := by decide +kernel
  have hspans : scriptSpans hollowScript =
      [(hollowScript, .ofSource 0 "```\nprint 1".toList)] := by
    rw [scriptSpans, hscan]
    rfl
  refine ⟨?_, ?_, ?_⟩
  · rw [← map_snd_scriptSpans, hspans]
    rfl
  · rw [hspans]
    rfl
  · decide +kernel

end ScriptedNotes.Page
