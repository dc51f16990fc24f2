import ScriptedNotes.Proofs.Script.Message
import ScriptedNotes.Proofs.Script.NumberedEscapes
import ScriptedNotes.Proofs.Script.TaskWriting
import ScriptedNotes.Proofs.Script.TokenLines

/-!
Sources of task blocks. Such a source is compiled to the calls of its tasks as long as no value has
a closing brace; the first block with one is cut short there, inside of a literal, which is open at
the end of the block (`blocks_read_back_iff`).
-/

namespace ScriptedNotes.Script

open Text

/-! ### Arguments -/

section Arguments

variable {c : Char} {s key : List Char} {literal : LiteralReader} {text : String}

lemma argumentText?_key {inKey : Bool} (hkey : ∀ c ∈ key, isWord c = true)
    (hin : key = [] → inKey = true) (hs : s ≠ []) :
    argumentText? inKey (key ++ ':' :: s) = some (trim s) := by
  induction key generalizing inKey with
  | nil => rw [List.nil_append, argumentText?, if_pos ⟨rfl, hin rfl, hs⟩]
  | cons c key ih =>
    obtain ⟨hc, hkey⟩ := List.forall_mem_cons.1 hkey
    have hcolon : c ≠ ':' := by
      rintro rfl
      revert hc
      decide
    rw [List.cons_append, argumentText?, if_neg fun h => hcolon h.1, ih hkey fun _ => hc]

lemma argumentsOf_lone (start stop line : Nat) :
    argumentsOf literal [⟨.string text, start, stop, line⟩] =
      (literal text line).map fun e => [e] := by
  have hlone : expressionAt literal (6 + (51 + 2)) 1
      ⟨none, [⟨.string text, start, stop, line⟩]⟩ =
        (literal text line).map fun e => (e, ⟨some line, []⟩) := expressionAt_lone rfl
  show (((expressionAt literal 59 1 ⟨none, [_]⟩ >>= _) >>= _).map _) = _
  rw [hlone]
  cases literal text line with
  | error x => rfl
  | ok e => rfl

/-- A value that is written as a literal is read back. -/
lemma parseArguments_quoted (value : List Char) :
    parseArguments (quoted (escaped false value)) = .ok [.str (.ofList value)] := by
  obtain ⟨stop, htokens⟩ := (Quotable.escaped false value).tokenize
  rw [parseArguments, htokens]
  dsimp only [bind, Except.bind]
  rw [argumentsOf_lone, plainLiteral, String.toList_ofList, unescape_escaped]
  rfl

lemma parseArguments_unclosed (h : stringRest '"' s = none) :
    parseArguments ('"' :: s) = .error (.unterminatedString 1) := by
  have hstuck : lexeme? ('"' :: s) = none := by
    have hcomment : opensComment ('"' :: s) = false := by cases s <;> rfl
    rw [lexeme?_cons hcomment]
    show (stringRest '"' s).map _ = none
    rw [h]
    rfl
  rw [parseArguments, tokenize, tokenizeFrom_stuck hstuck]
  rfl

end Arguments

/-! ### Bodies -/

section Bodies

variable {ls : List (List Char)}

lemma lineWise_blockArguments (name : List Char) : LineWise (blockArguments name) where
  emptyLast := rfl
  lineReturn l ls := by
    rw [blockArguments, blockArguments, trim_concat_of_isBlank (by decide)]
  cons l ls ls' h := by
    rw [blockArguments, blockArguments, h]

/-- Only what the lines of a body show is read. -/
lemma blockArguments_shown (name : List Char) (ls : List (List Char)) :
    blockArguments name ls = blockArguments name (shown ls) := by
  induction ls with
  | nil => rfl
  | cons l ls ih =>
    cases hl : allBlank l with
    | true =>
      rw [shown_cons_blank hl, blockArguments, trim_of_allBlank hl, ← ih]
      rfl
    | false => rw [shown_cons hl, blockArguments, blockArguments, trim_trim, ih]

lemma blockArguments_body (name : List Char) (hls : ∀ l ∈ ls, '\n' ∉ l) (hne : ls ≠ []) :
    blockArguments name (lines (['\n'].intercalate ls)) = blockArguments name (shown ls) := by
  rw [lines, (lineWise_blockArguments name).closeLines, pieces_intercalate hls hne,
    blockArguments_shown]

/-- A line with a key gives the literal behind it, whether the line is whole or not. -/
lemma argumentText?_lineUpTo (a : TaskArgument) (s : List Char) :
    argumentText? false (trim (a.lineUpTo s)) = some ('"' :: trimEnd s) := by
  have hquote : trim ('"' :: s) = '"' :: trimEnd s := by
    rw [trim, trimStart_cons (by decide)]
    exact trimEnd_append_cons (by decide) [] s
  have htrim : trim (a.lineUpTo s) = a.lineUpTo (trimEnd s) := by
    have hstart : trimStart (a.lineUpTo s) = (a.key ++ [':', ' ']) ++ '"' :: s := by
      obtain ⟨c, key, hkey⟩ := List.exists_cons_of_ne_nil a.key_ne_nil
      have hc : isWord c = true := a.key_word c (hkey ▸ List.mem_cons_self)
      rw [TaskArgument.lineUpTo, hkey, List.cons_append, trimStart_cons (isBlank_of_isWord hc)]
      simp
    rw [trim, hstart, trimEnd_append_cons (by decide), TaskArgument.lineUpTo]
    simp
  have hspace : trim (' ' :: '"' :: trimEnd s) = '"' :: trimEnd s := by
    calc trim (' ' :: '"' :: trimEnd s)
        = trim ('"' :: trimEnd s) := trim_append (show allBlank [' '] = true by decide) _
      _ = trim (trim ('"' :: s)) := by rw [hquote]
      _ = '"' :: trimEnd s := by rw [trim_trim, hquote]
  rw [htrim, TaskArgument.lineUpTo,
    argumentText?_key a.key_word (fun hnil => absurd hnil a.key_ne_nil) (by simp), hspace]

/-- The lines of arguments give their values. -/
lemma blockArguments_lines (name : List Char) (arguments : List TaskArgument)
    (rest : List (List Char)) :
    blockArguments name (arguments.map TaskArgument.line ++ rest) =
      (blockArguments name rest).map fun values =>
        (arguments.map fun a => .str (.ofList a.value)) ++ values := by
  induction arguments with
  | nil =>
    rw [List.map_nil, List.nil_append]
    cases blockArguments name rest <;> rfl
  | cons a arguments ih =>
    have htext : argumentText? false (trim a.line) = some (quoted (escaped false a.value)) := by
      rw [TaskArgument.line, argumentText?_lineUpTo, trimEnd_append_cons (by decide)]
      rfl
    rw [List.map_cons, List.cons_append, blockArguments, htext]
    dsimp only
    rw [parseArguments_quoted, ih]
    cases blockArguments name rest <;> rfl

end Bodies

/-! ### Blocks in a text -/

section Scanning

variable {b : TaskBlock} {s before body rest : List Char}

lemma finds_append_blanks (hbefore : allBlank before = true) (s : List Char) :
    finds taskBlock (before ++ s) = finds taskBlock s := by
  have hnone : ∀ c ∈ before, ∀ t, taskBlock (c :: t) = none := by
    intro c hc t
    have hne : ('t' : Char) ≠ c := by
      rintro rfl
      exact not_mem_of_allBlank (by decide) hbefore hc
    have hafter : after? "task".toList (c :: t) = none := if_neg hne
    rw [taskBlock, hafter]
    rfl
  have hplain : before.filterMap
      (Piece.found? ∘ Piece.plain : Char → Option (List Char × List Char)) = [] :=
    List.filterMap_eq_nil_iff.2 fun _ _ => rfl
  rw [finds, scan_append hnone, List.filterMap_append, List.filterMap_map, hplain, List.nil_append,
    finds]

lemma taskBlocks_append_blanks (hbefore : allBlank before = true) (s : List Char) :
    taskBlocks (before ++ s) = taskBlocks s := by
  rw [taskBlocks, finds_append_blanks hbefore, taskBlocks]

/-- A block goes from the line that opens it to the first closing brace. -/
lemma taskBlock_opening (b : TaskBlock) (s : List Char) :
    taskBlock (b.opening ++ s) =
      (cut ['}'] s).map fun (body, rest) => ((b.name, body), rest) := by
  have hopening : b.opening ++ s =
      "task".toList ++ ' ' :: '"' :: (b.name ++ '"' :: ' ' :: '{' :: s) := by
    simp [TaskBlock.opening, quoted]
  have hname : quotedName '"' ('"' :: (b.name ++ '"' :: ' ' :: '{' :: s)) =
      some (b.name, ' ' :: '{' :: s) := by
    show cut ['"'] (b.name ++ '"' :: ' ' :: '{' :: s) = _
    rw [cut_skip b.name_quote]
    simp [cut, after?]
  rw [taskBlock, hopening, after?_eq_some_iff.2 rfl]
  show (quotedName '"' ('"' :: (b.name ++ '"' :: ' ' :: '{' :: s)) <|> _).bind _ = _
  rw [hname]
  show (cut ['}'] s).bind _ = _
  cases cut ['}'] s <;> rfl

lemma finds_opening (h : cut ['}'] s = some (body, rest)) :
    finds taskBlock (b.opening ++ s) = (b.name, body) :: finds taskBlock rest := by
  have hread : taskBlock (b.opening ++ s) = some ((b.name, body), rest) := by
    rw [taskBlock_opening, h]
    rfl
  obtain ⟨lexeme, hne, he⟩ := advances_taskBlock hread
  rw [he] at hread ⊢
  rw [finds, scan_hit hne hread]
  rfl

lemma taskBlocks_opening (hbefore : allBlank before = true)
    (h : cut ['}'] s = some (body, rest)) : taskBlocks (before ++ (b.opening ++ s)) =
      (taskCall b.name body).bind fun stmt => (taskBlocks rest).map (stmt :: ·) := by
  rw [taskBlocks, finds_append_blanks hbefore, finds_opening h, List.mapM_cons]
  show (taskCall b.name body).bind _ = _
  cases taskCall b.name body with
  | error e => rfl
  | ok stmt =>
    show (taskBlocks rest).bind _ = (taskBlocks rest).map _
    cases taskBlocks rest <;> rfl

lemma cut_brace (h : '}' ∉ body) (rest : List Char) :
    cut ['}'] (body ++ '}' :: rest) = some (body, rest) := by
  rw [cut_skip h]
  simp [cut, after?]

end Scanning

/-! ### Reading blocks -/

section Reading

variable {b : TaskBlock} {ls : List (List Char)}

lemma brace_not_mem_lineUpTo {inside : List Char} (a : TaskArgument) (h : '}' ∉ inside) :
    '}' ∉ a.lineUpTo inside := by
  have hkey : '}' ∉ a.key := fun hmem => absurd (a.key_word _ hmem) (by decide)
  simp [TaskArgument.lineUpTo, hkey, h]

lemma brace_not_mem_escaped {s : List Char} (h : '}' ∉ s) : '}' ∉ escaped false s :=
  fun hmem => (mem_of_mem_escaped hmem).elim (fun hs => h hs.1) (by decide)

lemma brace_not_mem_lines {arguments : List TaskArgument} (h : ∀ a ∈ arguments, '}' ∉ a.value) :
    ∀ l ∈ arguments.map TaskArgument.line, '}' ∉ l := by
  intro l hl
  obtain ⟨a, ha, rfl⟩ := List.mem_map.1 hl
  exact brace_not_mem_lineUpTo a (by simp [brace_not_mem_escaped (h a ha)])

lemma taskCall_body (name : List Char) (hls : ∀ l ∈ ls, '\n' ∉ l) (hne : ls ≠ []) :
    taskCall name (['\n'].intercalate ls) = (blockArguments name (shown ls)).map fun values =>
      .expr (.callNamed "runTask" (.str (.ofList name) :: values)) := by
  rw [taskCall, blockArguments_body name hls hne]
  cases blockArguments name (shown ls) <;> rfl

/-- A body with all of its lines makes the call. -/
lemma taskCall_whole (hls : ∀ l ∈ ls, '\n' ∉ l) (hne : ls ≠ [])
    (hshown : shown ls = b.arguments.map TaskArgument.line) :
    taskCall b.name (['\n'].intercalate ls) = .ok b.call := by
  have hlines := blockArguments_lines b.name b.arguments []
  rw [List.append_nil] at hlines
  rw [taskCall_body b.name hls hne, hshown, hlines]
  simp [blockArguments, Except.map, TaskBlock.call]

/-- A body that ends inside of a literal has the literal open. -/
lemma taskCall_cut {arguments : List TaskArgument} {a : TaskArgument} {before inside : List Char}
    (name : List Char) (hls : ∀ l ∈ ls ++ [before ++ a.lineUpTo inside], '\n' ∉ l)
    (hshown : shown ls = arguments.map TaskArgument.line) (hbefore : allBlank before = true)
    (hopen : stringRest '"' inside = none) :
    taskCall name (['\n'].intercalate (ls ++ [before ++ a.lineUpTo inside])) =
      .error (.inTask (.ofList name) (.unterminatedString 1)) := by
  have hnot : allBlank (before ++ a.lineUpTo inside) = false := by
    simp [allBlank, TaskArgument.lineUpTo, show isBlank ':' = false by decide]
  have htext : argumentText? false (trim (before ++ a.lineUpTo inside)) =
      some ('"' :: trimEnd inside) := by
    rw [trim_append hbefore, argumentText?_lineUpTo]
  have hunclosed : stringRest '"' (trimEnd inside) = none := by
    obtain ⟨blanks, -, hblanks⟩ := exists_trimEnd inside
    rw [hblanks] at hopen
    exact stringRest_eq_none_of_append (by decide) hopen
  rw [taskCall_body name hls (by simp), shown_append, hshown, shown_cons hnot,
    blockArguments_lines, blockArguments, trim_trim, htext]
  dsimp only
  rw [parseArguments_unclosed hunclosed]
  rfl

/-- A block without a closing brace in its values is read up to the line that closes it. -/
lemma read_whole (rest : List Char) (h : b.cutShort = false) (hls : ∀ l ∈ ls, '\n' ∉ l)
    (hne : ls ≠ []) (hshown : shown ls = b.arguments.map TaskArgument.line) :
    cut ['}'] (['\n'].intercalate ls ++ '}' :: rest) = some (['\n'].intercalate ls, rest) ∧
      taskCall b.name (['\n'].intercalate ls) = .ok b.call := by
  have hvalues : ∀ a ∈ b.arguments, '}' ∉ a.value := by
    simpa [TaskBlock.cutShort] using h
  have hbrace : '}' ∉ ['\n'].intercalate ls := by
    refine not_mem_intercalate (by decide) ?_
    rw [hshown]
    exact brace_not_mem_lines hvalues
  exact ⟨cut_brace hbrace rest, taskCall_whole hls hne hshown⟩

/-- The first argument whose value has a closing brace. -/
lemma exists_of_cutShort (h : b.cutShort = true) : ∃ whole a more inside outside,
    b.arguments = whole ++ a :: more ∧ (∀ a' ∈ whole, '}' ∉ a'.value) ∧
      a.value = inside ++ '}' :: outside ∧ '}' ∉ inside := by
  obtain ⟨a, ha⟩ := Option.isSome_iff_exists.1 (List.find?_isSome.2 (List.any_eq_true.1 h))
  obtain ⟨hbrace, whole, more, harguments, hwhole⟩ := List.find?_eq_some_iff_append.1 ha
  obtain ⟨inside, outside, hvalue, hinside⟩ :=
    List.eq_append_cons_of_mem (List.contains_iff_mem.1 hbrace)
  exact ⟨whole, a, more, inside, outside, harguments,
    fun a' ha' => by simpa using hwhole a' ha', hvalue, hinside⟩

/-- A block with a closing brace in its values is read up to the first one, where a literal is
open. -/
lemma read_cutShort (text : List Char) (h : b.cutShort = true) (hls : ∀ l ∈ ls, '\n' ∉ l)
    (hshown : shown ls = b.arguments.map TaskArgument.line) : ∃ body rest,
      cut ['}'] (['\n'].intercalate ls ++ text) = some (body, rest) ∧
        taskCall b.name body = .error (.inTask (.ofList b.name) (.unterminatedString 1)) := by
  obtain ⟨whole, a, more, inside, outside, harguments, hwhole, hvalue, hinside⟩ :=
    exists_of_cutShort h
  rw [harguments, List.map_append, List.map_cons] at hshown
  obtain ⟨above, l, below, rfl, habove, hl, -⟩ := exists_of_shown hshown
  obtain ⟨before, after, hbefore, -, hline⟩ := exists_trim l
  -- the line of the value is cut at its brace
  have hcut : l = (before ++ a.lineUpTo (escaped false inside)) ++
      '}' :: (escaped false outside ++ '"' :: after) := by
    rw [hline, hl, TaskArgument.line, hvalue]
    simp [TaskArgument.lineUpTo, escaped, escapedChar]
  have hfeeds : ∀ m ∈ above ++ [before ++ a.lineUpTo (escaped false inside)], '\n' ∉ m := by
    rw [List.forall_mem_append, List.forall_mem_cons] at hls
    rw [List.forall_mem_append, List.forall_mem_singleton]
    refine ⟨hls.1, fun hmem => hls.2.1 ?_⟩
    rw [hcut]
    exact List.mem_append_left _ hmem
  have hbrace :
      '}' ∉ ['\n'].intercalate (above ++ [before ++ a.lineUpTo (escaped false inside)]) := by
    refine not_mem_intercalate (by decide) fun w hw => ?_
    rw [shown_append, habove, List.mem_append] at hw
    rcases hw with hw | hw
    · exact brace_not_mem_lines hwhole w hw
    · obtain ⟨m, hm, rfl⟩ := List.mem_map.1 hw
      obtain rfl := List.mem_singleton.1 (List.mem_filter.1 hm).1
      refine fun hmem => (List.mem_append.1 (trim_subset _ hmem)).elim ?_ ?_
      · exact not_mem_of_allBlank (by decide) hbefore
      · exact brace_not_mem_lineUpTo a (brace_not_mem_escaped hinside)
  have htext : ['\n'].intercalate (above ++ l :: below) ++ text =
      ['\n'].intercalate (above ++ [before ++ a.lineUpTo (escaped false inside)]) ++
        '}' :: (escaped false outside ++ '"' :: (after ++ fed below ++ text)) := by
    rw [hcut, intercalate_append_cons]
    simp
  have hcall := taskCall_cut b.name hfeeds habove hbefore (Quotable.escaped false inside).unclosed
  exact ⟨_, _, htext ▸ cut_brace hbrace _, hcall⟩

/-- Lines that begin with those of a block are its opening, a body, its brace, and lines below. -/
lemma exists_of_block {ws : List (List Char)} (hls : ∀ l ∈ ls, '\n' ∉ l)
    (h : shown ls = b.lines ++ ws) : ∃ before body behind below,
      fed ls = before ++ (b.opening ++ (['\n'].intercalate body ++ '}' :: (behind ++ fed below))) ∧
      allBlank before = true ∧ allBlank behind = true ∧
      (body ≠ [] ∧ (∀ l ∈ body, '\n' ∉ l) ∧ shown body = b.arguments.map TaskArgument.line) ∧
      (∀ l ∈ below, '\n' ∉ l) ∧ shown below = ws := by
  rw [TaskBlock.lines, List.cons_append, List.append_assoc, List.singleton_append] at h
  obtain ⟨above, first, ls, rfl, habove, hfirst, h⟩ := exists_of_shown_cons h
  obtain ⟨inner, last, below, rfl, hinner, hlast, hbelow⟩ := exists_of_shown h
  obtain ⟨before, start, hbefore, hstart, hopening⟩ := exists_trim first
  obtain ⟨indent, behind, hindent, hbehind, hclosing⟩ := exists_trim last
  rw [hfirst] at hopening
  rw [hlast] at hclosing
  subst hopening hclosing
  rw [List.forall_mem_append, List.forall_mem_cons, List.forall_mem_append, List.forall_mem_cons]
    at hls
  simp only [List.mem_append, not_or] at hls
  obtain ⟨-, ⟨-, hstartfeed⟩, hinnerfeed, ⟨⟨hindentfeed, -⟩, -⟩, hbelowfeed⟩ := hls
  have hlead : allBlank (fed above ++ '\n' :: before) = true := by
    have hfed := allBlank_fed habove
    rw [allBlank] at hfed hbefore ⊢
    rw [List.all_append, hfed, List.all_cons, hbefore]
    rfl
  have hshown : shown (start :: (inner ++ [indent])) = b.arguments.map TaskArgument.line := by
    rw [shown_cons_blank hstart, shown_append, hinner, shown_cons_blank hindent]
    exact List.append_nil _
  have hfeeds : ∀ l ∈ start :: (inner ++ [indent]), '\n' ∉ l := by
    rw [List.forall_mem_cons, List.forall_mem_append, List.forall_mem_singleton]
    exact ⟨hstartfeed, hinnerfeed, hindentfeed⟩
  refine ⟨fed above ++ '\n' :: before, start :: (inner ++ [indent]), behind, below, ?_, hlead,
    hbehind, ⟨List.cons_ne_nil _ _, hfeeds, hshown⟩, hbelowfeed, hbelow⟩
  rw [intercalate_cons_eq_fed]
  simp [fed]

/-- What the text of some blocks is compiled to. -/
def blocksOutcome (blocks : List TaskBlock) : Except SyntaxError Program :=
  match blocks.find? TaskBlock.cutShort with
  | none => .ok (blocks.map TaskBlock.call)
  | some b => .error (.inTask (.ofList b.name) (.unterminatedString 1))

lemma blocksOutcome_cons (b : TaskBlock) (blocks : List TaskBlock) :
    blocksOutcome (b :: blocks) =
      if b.cutShort then .error (.inTask (.ofList b.name) (.unterminatedString 1))
      else (blocksOutcome blocks).map (b.call :: ·) := by
  unfold blocksOutcome
  rw [List.find?_cons]
  cases b.cutShort with
  | true => rfl
  | false =>
    cases blocks.find? TaskBlock.cutShort <;> rfl

/-- **Blocks are read one after another, as they are written.** -/
theorem taskBlocks_fed (blocks : List TaskBlock) (hls : ∀ l ∈ ls, '\n' ∉ l)
    (h : shown ls = blocks.flatMap TaskBlock.lines) :
    taskBlocks (fed ls) = blocksOutcome blocks := by
  induction blocks generalizing ls with
  | nil =>
    have hblank := finds_append_blanks (allBlank_fed h) []
    rw [List.append_nil] at hblank
    rw [taskBlocks, hblank, finds, scan_nil]
    rfl
  | cons b blocks ih =>
    rw [List.flatMap_cons] at h
    obtain ⟨before, body, behind, below, htext, hbefore, hbehind, ⟨hne, hfeeds, hshown⟩,
      hbelowfeed, hbelow⟩ := exists_of_block hls h
    rw [htext, blocksOutcome_cons]
    cases hshort : b.cutShort with
    | false =>
      obtain ⟨hcut, hcall⟩ := read_whole (behind ++ fed below) hshort hfeeds hne hshown
      rw [taskBlocks_opening hbefore hcut, hcall, taskBlocks_append_blanks hbehind,
        ih hbelowfeed hbelow]
      rfl
    | true =>
      obtain ⟨cutBody, rest, hcut, hcall⟩ :=
        read_cutShort ('}' :: (behind ++ fed below)) hshort hfeeds hshown
      rw [taskBlocks_opening hbefore hcut, hcall]
      rfl

end Reading

/-! ### Compiling blocks -/

section Compiling

variable {blocks : List TaskBlock} {source : List Char}

lemma placedExprs_str (values : List (List Char)) :
    placedExprs (values.map fun value => .str (.ofList value)) = .ok () := by
  induction values with
  | nil => rfl
  | cons value values ih =>
    rw [List.map_cons, placedExprs, placedExpr, ih]
    rfl

lemma placedStmts_calls (blocks : List TaskBlock) :
    placedStmts {} (blocks.map TaskBlock.call) = .ok () := by
  induction blocks with
  | nil => rfl
  | cons b blocks ih =>
    have hvalues := placedExprs_str (b.name :: b.arguments.map TaskArgument.value)
    rw [List.map_cons, List.map_map] at hvalues
    have hcall : placedStmt {} b.call = .ok () := by
      rw [TaskBlock.call, Expr.callNamed, placedStmt, placedExpr, placedExpr]
      exact hvalues
    rw [List.map_cons, placedStmts, hcall]
    exact ih

/-- A source of blocks is compiled to what its blocks say. -/
lemma compile_blocks (h : Writes blocks source) (hne : blocks ≠ []) :
    compile source = (blocksOutcome blocks).map fun program => ⟨.taskDefinition, program⟩ := by
  have hshown : shown (pieces (stripComments source)) = blocks.flatMap TaskBlock.lines := by
    rw [← lineWise_shown.closeLines, ← shown_codeLines h]
    exact lineWise_shown.stripComments source
  have hread : taskBlocks (stripComments source) = blocksOutcome blocks := by
    have hfed := taskBlocks_append_blanks (show allBlank ['\n'] = true by decide)
      (stripComments source)
    rw [List.singleton_append, ← fed_pieces] at hfed
    rw [← hfed, taskBlocks_fed blocks (lineFeed_not_mem_pieces _) hshown]
  rw [compile_eq_placedIn, tier_of_writes h hne, programIn, hread, blocksOutcome]
  cases blocks.find? TaskBlock.cutShort with
  | some b => rfl
  | none =>
    show (placedStmts {} (blocks.map TaskBlock.call)).bind _ = _
    rw [placedStmts_calls]
    rfl

/-- **When a source of task blocks is read back.** Take any blocks and a source that writes them,
with comments and blank lines between the lines and blanks around them. It is compiled to a call for
each block, with the name and then the values as plain texts, just when no value has a closing
brace. Otherwise it is not compiled: in the first block with such a value a literal is left open. -/
theorem blocks_read_back_iff (h : Writes blocks source) (hne : blocks ≠ []) :
    (compile source = .ok ⟨.taskDefinition, blocks.map TaskBlock.call⟩ ↔
      ∀ b ∈ blocks, ∀ a ∈ b.arguments, '}' ∉ a.value) ∧
    (∀ b, blocks.find? TaskBlock.cutShort = some b →
      compile source = .error (.inTask (.ofList b.name) (.unterminatedString 1))) := by
  have hcompile := compile_blocks h hne
  have hwhole : (∀ b ∈ blocks, ∀ a ∈ b.arguments, '}' ∉ a.value) ↔
      blocks.find? TaskBlock.cutShort = none := by
    simp [TaskBlock.cutShort]
  rw [hwhole]
  unfold blocksOutcome at hcompile
  cases hfind : blocks.find? TaskBlock.cutShort with
  | none =>
    rw [hfind] at hcompile
    exact ⟨iff_of_true hcompile rfl, fun b hb => by cases hb⟩
  | some b =>
    rw [hfind] at hcompile
    refine ⟨iff_of_false (fun hok => ?_) (by simp), fun b' hb' => ?_⟩
    · rw [hcompile] at hok
      cases hok
    · cases hb'
      exact hcompile

end Compiling

/-- A block of a task whose name and value are not read as anything else. -/
def greeting : TaskBlock where
  name := "say \x7b // hello".toList
  arguments := [⟨"text".toList, "task: \"a\" // \x7b\nb".toList, by decide,
    List.all_eq_true.1 (by decide)⟩]
  name_quote := by decide
  name_feed := by decide

/-- A block of a task without arguments. -/
def leaving : TaskBlock := ⟨"leave".toList, [], by decide, by decide⟩

/-- The lines of two blocks, with comments and blanks. -/
def greetingLines : List (List Char) :=
  ["// Good day".toList, "task \"say \x7b // hello\" \x7b".toList, "  // \x7d".toList,
    "  text: \"task: \\\"a\\\" // \x7b\\nb\"\r".toList, "\x7d".toList, [],
    "task \"leave\" \x7b".toList, "\x7d".toList, []]

theorem blocks_read_back_iff_greeting :
    Writes [greeting, leaving] (['\n'].intercalate greetingLines) ∧ [greeting, leaving] ≠ [] ∧
      compile (['\n'].intercalate greetingLines) = .ok ⟨.taskDefinition,
        [.expr (.callNamed "runTask" [.str "say \x7b // hello", .str "task: \"a\" // \x7b\nb"]),
          .expr (.callNamed "runTask" [.str "leave"])]⟩ := by
  have hwrites : Writes [greeting, leaving] (['\n'].intercalate greetingLines) := by
    unfold Writes
    decide +kernel
  exact ⟨hwrites, by simp, (blocks_read_back_iff hwrites (by simp)).1.2 (by decide)⟩

/-- A block with a value in braces. -/
def bracedGreeting : TaskBlock where
  name := "greet".toList
  arguments := [⟨"text".toList, "\x7bname\x7d".toList, by decide,
    List.all_eq_true.1 (by decide)⟩]
  name_quote := by decide
  name_feed := by decide

/-- A closing brace inside of a literal ends the block, and the literal is open. -/
theorem bracedGreeting_cut_short :
    ['\n'].intercalate bracedGreeting.lines =
        "task \"greet\" \x7b\ntext: \"\x7bname\x7d\"\n\x7d".toList ∧
      Writes [bracedGreeting] (['\n'].intercalate bracedGreeting.lines) ∧
      compile (['\n'].intercalate bracedGreeting.lines) =
        .error (.inTask "greet" (.unterminatedString 1)) := by
  have hwrites : Writes [bracedGreeting] (['\n'].intercalate bracedGreeting.lines) :=
    writes_intercalate (by decide +kernel) (by decide) (by decide +kernel)
  exact ⟨by decide +kernel, hwrites, compile_blocks hwrites (by simp)⟩

end ScriptedNotes.Script
