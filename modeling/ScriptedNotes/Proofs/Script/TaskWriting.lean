import ScriptedNotes.Proofs.Script.Escaping
import ScriptedNotes.Proofs.Script.ShownLines

/-!
How task blocks are written: a line that opens the block, a line with the escaped value for each
argument, and a line that closes it, with blank lines and comments anywhere between. The slashes of
such lines are in literals, so that stripping comments leaves them alone (`shown_codeLines`).
-/

namespace ScriptedNotes.Script

open Text

/-! ### Writing blocks -/

/-- An argument of a task: a key, which is a word, and any text for its value. -/
structure TaskArgument where
  key : List Char
  value : List Char
  key_ne_nil : key ≠ []
  key_word : ∀ c ∈ key, isWord c = true

/-- A task block with a name that a literal on one line can hold without escapes. -/
structure TaskBlock where
  name : List Char
  arguments : List TaskArgument
  name_quote : '"' ∉ name
  name_feed : '\n' ∉ name

namespace TaskArgument

/-- The line of an argument up to a place in the literal. -/
def lineUpTo (a : TaskArgument) (inside : List Char) : List Char :=
  a.key ++ ':' :: ' ' :: '"' :: inside

/-- The line of an argument. -/
def line (a : TaskArgument) : List Char :=
  a.lineUpTo (escaped false a.value ++ ['"'])

end TaskArgument

namespace TaskBlock

/-- The line that opens a block. -/
def opening (b : TaskBlock) : List Char :=
  "task ".toList ++ quoted b.name ++ [' ', '{']

/-- The lines of a block. -/
def lines (b : TaskBlock) : List (List Char) :=
  b.opening :: (b.arguments.map TaskArgument.line ++ [['}']])

/-- What a block says: run the task with the values. -/
def call (b : TaskBlock) : Stmt :=
  .expr (.callNamed "runTask"
    (.str (.ofList b.name) :: b.arguments.map fun a => .str (.ofList a.value)))

/-- Whether a value has the brace that closes the block. -/
def cutShort (b : TaskBlock) : Bool :=
  b.arguments.any fun a => a.value.contains '}'

end TaskBlock

/-- Whether a line is blank or a comment. -/
def isAside (l : List Char) : Bool :=
  (trimStart l).isEmpty || "//".toList.isPrefixOf (trimStart l)

/-- Whether the lines of a source, but for blank ones and comments, and for blanks around them, are
those of some blocks. -/
def Writes (blocks : List TaskBlock) (source : List Char) : Prop :=
  ((pieces source).filter fun l => !isAside l).map trim = blocks.flatMap TaskBlock.lines

lemma trim_line {c d : Char} (hc : isBlank c = false) (hd : isBlank d = false) (s : List Char) :
    trim (c :: s ++ [d]) = c :: s ++ [d] := by
  rw [trim, List.cons_append, trimStart_cons hc, ← List.cons_append, trimEnd_append_cons hd]
  rfl

lemma trim_written {b : TaskBlock} {w : List Char} (h : w ∈ b.lines) : trim w = w := by
  rw [TaskBlock.lines, List.mem_cons, List.mem_append, List.mem_map, List.mem_singleton] at h
  rcases h with rfl | ⟨a, -, rfl⟩ | rfl
  · have hopening : b.opening = 't' :: ("ask ".toList ++ quoted b.name ++ [' ']) ++ ['{'] := by
      simp [TaskBlock.opening]
    rw [hopening, trim_line (by decide) (by decide)]
  · obtain ⟨c, key, hkey⟩ := List.exists_cons_of_ne_nil a.key_ne_nil
    have hline : a.line = c :: (key ++ ':' :: ' ' :: '"' :: escaped false a.value) ++ ['"'] := by
      simp [TaskArgument.line, TaskArgument.lineUpTo, hkey]
    rw [hline, trim_line (isBlank_of_isWord (a.key_word c (hkey ▸ List.mem_cons_self))) (by decide)]
  · decide

/-- Any lines that are those of the blocks but for blank lines and comments make a source of the
blocks. -/
lemma writes_intercalate {blocks : List TaskBlock} {ls : List (List Char)}
    (hfeed : ∀ l ∈ ls, '\n' ∉ l) (hne : ls ≠ [])
    (h : (ls.filter fun l => !isAside l) = blocks.flatMap TaskBlock.lines) :
    Writes blocks (['\n'].intercalate ls) := by
  rw [Writes, pieces_intercalate hfeed hne, h]
  refine (List.map_congr_left fun w hw => ?_).trans (List.map_id' _)
  obtain ⟨b, -, hw⟩ := List.mem_flatMap.1 hw
  exact trim_written hw

/-! ### Stripping -/

section Stripping

variable {c quote : Char} {l s t before behind : List Char} {state : Scanning}

lemma stripLine_of_not_mem (h : '/' ∉ s) : stripLine state s = s := by
  induction s generalizing state with
  | nil => rfl
  | cons c s ih =>
    rw [List.mem_cons, not_or] at h
    rw [stripLine_cons fun hslash => h.1 hslash.2.1.symm, ih h.2]

/-- Plain characters in front of a comment or a literal stay. -/
lemma stripLine_append (h : ∀ c ∈ before, c ≠ '/' ∧ c ≠ '"' ∧ c ≠ '\'') (s : List Char) :
    stripLine .code (before ++ s) = before ++ stripLine .code s := by
  induction before with
  | nil => rfl
  | cons c before ih =>
    obtain ⟨hc, hbefore⟩ := List.forall_mem_cons.1 h
    have hcode : Scanning.code.next c = .code := by simp [Scanning.next, hc]
    rw [List.cons_append, stripLine_cons fun hslash => hc.1 hslash.2.1, hcode, ih hbefore]
    rfl

/-- What stands in a literal stays. -/
lemma stripLine_literal (hquote : quote ≠ '\\') (hopen : stringRest quote s = none)
    (hfeed : '\n' ∉ s) (t : List Char) : stripLine (.literal quote) (s ++ t) =
      s ++ stripLine ((Scanning.literal quote).after s) t := by
  induction s using List.reverseRecOn generalizing t with
  | nil => rfl
  | append_singleton s c ih =>
    have hopen' := stringRest_eq_none_of_append hquote hopen
    have hfeed' : '\n' ∉ s := fun hmem => hfeed (List.mem_append_left _ hmem)
    have hliteral := Scanning.after_open hopen' hfeed' hquote
    rw [List.append_assoc, ih hopen' hfeed', List.singleton_append,
      stripLine_cons fun hslash => hliteral hslash.1, Scanning.after_append]
    simp

/-- A line whose only slashes are in a literal has no comment. -/
lemma stripLine_quoted (hbefore : ∀ c ∈ before, c ≠ '/' ∧ c ≠ '"' ∧ c ≠ '\'')
    (hopen : stringRest '"' s = none) (hfeed : '\n' ∉ s) (hbehind : '/' ∉ behind) :
    stripLine .code (before ++ quoted s ++ behind) = before ++ quoted s ++ behind := by
  have hclose : '/' ∉ '"' :: behind := by simpa using hbehind
  have hquoted : quoted s ++ behind = '"' :: (s ++ '"' :: behind) := by simp [quoted]
  rw [List.append_assoc, stripLine_append hbefore, hquoted, stripLine_cons (by simp),
    show Scanning.code.next '"' = .literal '"' from rfl,
    stripLine_literal (by decide) hopen hfeed, stripLine_of_not_mem hclose]

lemma plain_of_isBlank (h : isBlank c = true) : c ≠ '/' ∧ c ≠ '"' ∧ c ≠ '\'' := by
  refine ⟨?_, ?_, ?_⟩ <;> rintro rfl <;> revert h <;> decide

lemma plain_of_isWord (h : isWord c = true) : c ≠ '/' ∧ c ≠ '"' ∧ c ≠ '\'' := by
  refine ⟨?_, ?_, ?_⟩ <;> rintro rfl <;> revert h <;> decide

lemma plain_of_allBlank (h : allBlank s = true) : ∀ c ∈ s, c ≠ '/' ∧ c ≠ '"' ∧ c ≠ '\'' :=
  fun _ hc => plain_of_isBlank (List.all_eq_true.1 h _ hc)

lemma stripLine_aside (h : isAside l = true) : allBlank (stripLine .code l) = true := by
  obtain ⟨before, hbefore, hl⟩ := exists_trimStart l
  have hstripped : stripLine .code (trimStart l) = [] := by
    rw [isAside, Bool.or_eq_true, List.isEmpty_iff, List.isPrefixOf_iff_prefix] at h
    rcases h with h | ⟨text, h⟩
    · rw [h]
      rfl
    · rw [← h]
      rfl
  rw [hl, stripLine_append (plain_of_allBlank hbefore), hstripped, List.append_nil]
  exact hbefore

lemma isAside_of_allBlank (h : allBlank l = true) : isAside l = true := by
  have hnil : trimStart l = [] := List.dropWhile_eq_nil_iff.2 (List.all_eq_true.1 h)
  rw [isAside, hnil]
  rfl

/-- A line of a block has no comment. -/
lemma stripLine_written {b : TaskBlock} (h : trim l ∈ b.lines) : stripLine .code l = l := by
  obtain ⟨before, behind, hbefore, hbehind, hl⟩ := exists_trim l
  have hplain := plain_of_allBlank hbefore
  have hslash : '/' ∉ behind := fun hmem => (plain_of_allBlank hbehind _ hmem).1 rfl
  rw [TaskBlock.lines, List.mem_cons, List.mem_append, List.mem_map, List.mem_singleton] at h
  rcases h with h | ⟨a, -, h⟩ | h
  · have htext : l = before ++ "task ".toList ++ quoted b.name ++ (' ' :: '{' :: behind) := by
      rw [hl, h, TaskBlock.opening]
      simp
    rw [htext]
    refine stripLine_quoted ?_ (stringRest_of_not_mem b.name_quote) b.name_feed (by simpa)
    rw [List.forall_mem_append]
    exact ⟨hplain, by simp⟩
  · have htext :
        l = before ++ (a.key ++ [':', ' ']) ++ quoted (escaped false a.value) ++ behind := by
      rw [hl, ← h]
      simp [TaskArgument.line, TaskArgument.lineUpTo, quoted]
    rw [htext]
    refine stripLine_quoted ?_ (Quotable.escaped _ _).unclosed (lineFeed_not_mem_escaped _) hslash
    rw [List.forall_mem_append, List.forall_mem_append]
    exact ⟨hplain, fun c hc => plain_of_isWord (a.key_word c hc), by simp⟩
  · refine stripLine_of_not_mem fun hmem => ?_
    rw [hl, h] at hmem
    simp only [List.mem_append, List.mem_singleton] at hmem
    rcases hmem with (hmem | hmem) | hmem
    · exact (hplain _ hmem).1 rfl
    · exact absurd hmem (by decide)
    · exact hslash hmem

/-- Of lines that are those of blocks or beside them, stripping leaves the former. -/
lemma shown_map_stripLine {blocks : List TaskBlock} {ls : List (List Char)}
    (hls : ∀ l ∈ ls, isAside l = false → trim l ∈ blocks.flatMap TaskBlock.lines) :
    shown (ls.map (stripLine .code)) = (ls.filter fun l => !isAside l).map trim := by
  induction ls with
  | nil => rfl
  | cons l ls ih =>
    obtain ⟨hl, hls⟩ := List.forall_mem_cons.1 hls
    rw [List.map_cons, List.filter_cons]
    cases haside : isAside l with
    | true =>
      rw [shown_cons_blank (stripLine_aside haside), ih hls]
      rfl
    | false =>
      obtain ⟨b, -, hmem⟩ := List.mem_flatMap.1 (hl haside)
      have hblank : allBlank l = false := by
        by_contra hne
        rw [isAside_of_allBlank (by simpa using hne)] at haside
        cases haside
      rw [stripLine_written hmem, shown_cons hblank, ih hls]
      rfl

/-- Without its comments a source still shows the lines of its blocks. -/
lemma shown_codeLines {blocks : List TaskBlock} {source : List Char} (h : Writes blocks source) :
    shown (codeLines source) = blocks.flatMap TaskBlock.lines := by
  have hwritten : ∀ l ∈ pieces source, isAside l = false →
      trim l ∈ blocks.flatMap TaskBlock.lines := by
    intro l hl haside
    rw [← h]
    exact List.mem_map_of_mem (List.mem_filter.2 ⟨hl, by simp [haside]⟩)
  exact (shown_map_stripLine hwritten).trans h

end Stripping

/-! ### The dialect -/

lemma mentions_append_blanks {pattern before s : List Char} (hne : pattern ≠ [])
    (hpattern : ∀ c ∈ pattern, isBlank c = false) (hbefore : allBlank before = true)
    (h : mentions pattern false s = true) : mentions pattern false (before ++ s) = true := by
  rcases List.eq_nil_or_concat before with rfl | ⟨before, c, rfl⟩
  · exact h
  · have hc : isBlank c = true := List.all_eq_true.1 hbefore c (by simp)
    have hmem : c ∉ pattern := fun hmem => by
      rw [hpattern c hmem] at hc
      cases hc
    rw [List.concat_eq_append, List.append_assoc, List.singleton_append,
      mentions_append_stop hne hmem (isWord_of_isBlank hc), h, Bool.or_true]

/-- A source of blocks is in the dialect of tasks. -/
lemma tier_of_writes {blocks : List TaskBlock} {source : List Char} (h : Writes blocks source)
    (hne : blocks ≠ []) : Tier.ofSource (stripComments source) = .taskDefinition := by
  obtain ⟨b, blocks, rfl⟩ := List.exists_cons_of_ne_nil hne
  have hshown := shown_codeLines h
  rw [List.flatMap_cons, TaskBlock.lines, List.cons_append] at hshown
  obtain ⟨above, l, below, hlines, -, hl, -⟩ := exists_of_shown_cons hshown
  obtain ⟨before, behind, hbefore, -, hsplit⟩ := exists_trim l
  refine taskDefinition_of_line (l := l) (by rw [hlines]; simp) ?_
  rw [hsplit, hl, List.append_assoc]
  exact mentions_append_blanks (by decide) (by simp [isBlank]) hbefore rfl

end ScriptedNotes.Script
