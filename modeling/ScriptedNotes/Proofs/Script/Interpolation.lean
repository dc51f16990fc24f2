import ScriptedNotes.Proofs.Script.Escaping
import ScriptedNotes.Proofs.Script.ReadingForms
import ScriptedNotes.Proofs.Text.Scanning

/-!
Literals with expressions in braces. Whatever texts and expressions a literal is put together from,
it is read as just these (`parseExpression_literalOfInsets`). The literal is looked at three times:
it is cut out of the source, it is cut at its braces, which writes an escaped brace by its number,
and its escapes are resolved. `recoded` is what a text has become in between.
-/

namespace ScriptedNotes.Script

open Text

/-! ### Blank sources -/

/-- No token begins with a blank. -/
lemma lexeme?_of_isBlank {c : Char} (h : isBlank c = true) (s : List Char) :
    lexeme? (c :: s) = if isGap c then some (.gap, s.dropWhile isGap) else none := by
  have hword : startsName c = false ∧ c.isDigit = false ∧ ¬ (c = '"' ∨ c = '\'') := by
    have halphanum := isAlphanum_of_isBlank h
    simp only [Char.isAlphanum, Bool.or_eq_false_iff] at halphanum
    refine ⟨?_, halphanum.2, ?_⟩
    · unfold startsName
      rw [halphanum.1, Bool.false_or, beq_eq_false_iff_ne]
      rintro rfl
      cases h
    · rintro (rfl | rfl) <;> cases h
  have hcomment : opensComment (c :: s) = false := by
    cases s with
    | nil => rfl
    | cons d s =>
      simp only [opensComment, Bool.and_eq_false_iff, Bool.or_eq_false_iff, beq_eq_false_iff_ne]
      left
      refine ⟨?_, ?_⟩ <;> rintro rfl <;> cases h
  have hsymbol : symbol? (c :: s) = none := by
    rw [Option.eq_none_iff_forall_ne_some]
    rintro ⟨y, rest⟩ hy
    obtain ⟨spelling, hmem, hs⟩ := symbol?_eq_append hy
    have hheads : ∀ e ∈ symbolTable, e.1.head?.any isBlank = false := by decide
    have hhead : spelling.head? = some c := by
      rw [← List.head?_append_of_ne_nil _ (spelling_ne_nil hmem), ← hs]
      rfl
    have hblank := hheads _ hmem
    rw [hhead, Option.any_some, h] at hblank
    cases hblank
  obtain ⟨hname, hdigit, hquote⟩ := hword
  rw [lexeme?_cons hcomment]
  unfold plainLexeme?
  rw [hname, hdigit, if_neg hquote, hsymbol]
  rfl

/-- A source of blanks has no tokens, if it is one at all. -/
lemma tokenizeFrom_of_allBlank {pos line : Nat} {s : List Char} (h : allBlank s = true)
    {tokens : List Located} (htokens : tokenizeFrom pos line s = .ok tokens) : tokens = [] := by
  induction hlength : s.length using Nat.strong_induction_on generalizing pos line s with
  | _ n ih =>
    match s with
    | [] =>
      rw [tokenizeFrom] at htokens
      cases htokens
      rfl
    | c :: s =>
      obtain ⟨hc, hs⟩ : isBlank c = true ∧ allBlank s = true := Bool.and_eq_true_iff.1 h
      have hlexeme := lexeme?_of_isBlank hc s
      split_ifs at hlexeme with hgap
      · have hcovered : c :: s = (c :: s.takeWhile isGap) ++ s.dropWhile isGap := by simp
        rw [tokenizeFrom_gap hlexeme hcovered] at htokens
        have hblank : allBlank (s.dropWhile isGap) = true :=
          List.all_eq_true.2 fun d hd =>
            List.all_eq_true.1 hs d ((List.dropWhile_suffix _).subset hd)
        refine ih _ ?_ hblank htokens rfl
        have hle := (List.dropWhile_suffix (l := s) isGap).length_le
        rw [← hlength, List.length_cons]
        omega
      · rw [tokenizeFrom, hlexeme] at htokens
        cases htokens

/-- An expression is not blank. -/
lemma allBlank_of_parseExpression {source : List Char} {e : Expr} {interpolated : Bool}
    (h : parseExpression source interpolated = .ok e) : allBlank source = false := by
  by_contra hblank
  unfold parseExpression at h
  match htokens : tokenize source with
  | .error _ =>
    rw [htokens] at h
    cases h
  | .ok tokens =>
    obtain rfl := tokenizeFrom_of_allBlank (by simpa using hblank) htokens
    rw [htokens] at h
    cases h

/-! ### Insets -/

/-- What a literal is put together from: a text, or an expression with its source. -/
inductive Inset where
  | text (s : String)
  | code (source : List Char) (e : Expr)

/-- How a part is written in a literal. -/
def Inset.written : Inset → List Char
  | .text s => escaped true s.toList
  | .code source _ => '{' :: (source ++ ['}'])

/-- Whether a source can stand in braces and writes its expression. -/
def Inset.Readable : Inset → Prop
  | .text _ => True
  | .code source e => parseExpression source false = .ok e ∧
    ∀ c ∈ source, c ∉ ['{', '}', '"', '\\', '\n']

/-- What a part is read as when it stands alone. -/
def Inset.part : Inset → TemplatePart
  | .text s => .text s
  | .code _ e => .expr e

/-- The literal of some parts. -/
def literalOfInsets (parts : List Inset) : List Char :=
  quoted (parts.flatMap Inset.written)

/-- A text before some parts: one with a text that it meets, and nothing when it is empty. -/
def withText (s : String) : List TemplatePart → List TemplatePart
  | .text t :: parts => .text (s ++ t) :: parts
  | parts => if s = "" then parts else .text s :: parts

/-- The parts with adjacent texts merged and empty ones left out. -/
def merged : List TemplatePart → List TemplatePart
  | [] => []
  | .text s :: parts => withText s (merged parts)
  | .expr e :: parts => .expr e :: merged parts

/-- Texts that meet are one, also across an empty one; an expression parts them. -/
example : merged [.text "a", .text "", .text "b", .expr .nil, .text "", .expr .nil, .text "c"] =
    [.text "ab", .expr .nil, .expr .nil, .text "c"] := by rfl

lemma withText_empty (parts : List TemplatePart) : withText "" parts = parts := by
  unfold withText
  split
  · rw [String.empty_append]
  · rfl

lemma withText_append (s t : String) (parts : List TemplatePart) :
    withText (s ++ t) parts = withText s (withText t parts) := by
  match parts with
  | .text u :: parts => simp [withText, String.append_assoc]
  | [] | .expr e :: parts =>
    by_cases ht : t = ""
    · simp [withText, ht]
    · simp [withText, ht]

lemma withText_expr (s : String) (e : Expr) (parts : List TemplatePart) :
    withText s (.expr e :: parts) = withText s [] ++ .expr e :: parts := by
  by_cases hs : s = "" <;> simp [withText, hs]

lemma expr_mem_withText {e : Expr} {s : String} {parts : List TemplatePart}
    (h : .expr e ∈ parts) : .expr e ∈ withText s parts := by
  unfold withText
  split
  · simpa using h
  · split
    · exact h
    · exact List.mem_cons_of_mem _ h

/-- Merging keeps the expressions. -/
lemma expr_mem_merged {e : Expr} {parts : List TemplatePart} (h : .expr e ∈ parts) :
    .expr e ∈ merged parts := by
  induction parts with
  | nil => cases h
  | cons part parts ih =>
    match part with
    | .text s =>
      exact expr_mem_withText (ih (by simpa using h))
    | .expr e' =>
      rw [merged]
      rcases List.mem_cons.1 h with h | h
      · rw [h]
        exact List.mem_cons_self
      · exact List.mem_cons_of_mem _ (ih h)

/-- Texts merge to one. -/
lemma merged_texts (texts : List String) :
    merged (texts.map .text) = withText (.ofList (texts.flatMap String.toList)) [] := by
  induction texts with
  | nil => rfl
  | cons s texts ih =>
    rw [List.map_cons, merged, ih, ← withText_append, List.flatMap_cons, String.ofList_append,
      String.ofList_toList]

/-! ### Cutting at the braces -/

/-- A character behind the cutting at braces: an escaped brace has become its number. -/
def recodedChar (c : Char) : List Char :=
  if c = '{' then "\\u{7b}".toList else escapedChar true c

/-- A text behind the cutting at braces. -/
def recoded (s : List Char) : List Char :=
  s.flatMap recodedChar

lemma recoded_append (s t : List Char) : recoded (s ++ t) = recoded s ++ recoded t :=
  List.flatMap_append

lemma recoded_isEmpty (s : List Char) : (recoded s).isEmpty = s.isEmpty := by
  cases s with
  | nil => rfl
  | cons c s =>
    rw [recoded, List.flatMap_cons, recodedChar, escapedChar]
    split_ifs <;> rfl

/-- Cutting keeps what a text says. -/
lemma unescape_recoded (s : List Char) : unescape (recoded s) = s := by
  induction s with
  | nil => simp [recoded, unescape]
  | cons c s ih =>
    rw [recoded, List.flatMap_cons, ← recoded, recodedChar]
    split_ifs with hbrace
    · have hpieces : "\\u{7b}".toList ++ recoded s =
        '\\' :: 'u' :: ('{' :: '7' :: 'b' :: '}' :: recoded s) := by rfl
      have hchar : bracedChar? ('{' :: '7' :: 'b' :: '}' :: recoded s) =
        some ('{', recoded s) := by rfl
      rw [hpieces, unescape]
      split
      · next found =>
        rw [hchar] at found
        cases found
        rw [ih, hbrace]
      · next found =>
        rw [hchar] at found
        cases found
    · rw [unescape_escapedChar, ih]

lemma templateParts_escapedChar (line : Nat) (pending : List Char) (c : Char) (rest : List Char) :
    templateParts line pending (segments (escapedChar true c ++ rest)) =
      templateParts line (pending ++ recodedChar c) (segments rest) := by
  -- A segment of text goes to what is pending.
  have htext : ∀ {s : List Char}, segments s = .text (recodedChar c) :: segments rest →
      templateParts line pending (segments s) =
        templateParts line (pending ++ recodedChar c) (segments rest) := by
    intro s hs
    rw [hs, templateParts]
  refine htext ?_
  unfold recodedChar escapedChar
  by_cases hbrace : c = '{'
  · subst hbrace
    rw [if_pos rfl, if_pos (.inr (.inr ⟨rfl, rfl⟩))]
    rw [List.cons_append, List.singleton_append, segments]
  · rw [if_neg hbrace]
    split_ifs with hmarked hfeed
    · have hclose : c ≠ '}' := by
        rintro rfl
        simp at hmarked
      rw [List.cons_append, List.singleton_append, segments]
      all_goals simp [hbrace, hclose]
    · rw [List.cons_append, List.singleton_append, segments]
      all_goals simp
    · rw [not_or] at hmarked
      rw [List.singleton_append, segments]
      all_goals simp [hmarked.1, hbrace]

lemma templateParts_escaped (line : Nat) (pending s rest : List Char) :
    templateParts line pending (segments (escaped true s ++ rest)) =
      templateParts line (pending ++ recoded s) (segments rest) := by
  induction s generalizing pending with
  | nil => simp [escaped, recoded]
  | cons c s ih =>
    rw [escaped, List.flatMap_cons, List.append_assoc, templateParts_escapedChar, ← escaped, ih,
      List.append_assoc]
    rfl

/-- Braces around an expression are cut out with nothing else. -/
lemma segments_code {source : List Char} {e : Expr} (h : (Inset.code source e).Readable)
    (rest : List Char) :
    segments ('{' :: (source ++ '}' :: rest)) = .code source :: segments rest := by
  obtain ⟨hread, hplain⟩ := h
  have hclose : '}' ∉ source := fun hmem => hplain _ hmem (by decide)
  have hopen : ¬ source.contains '{' = true := fun hmem =>
    hplain _ (List.contains_iff_mem.1 hmem) (by decide)
  have hblank : ¬ allBlank source = true := by
    rw [allBlank_of_parseExpression hread]
    exact Bool.false_ne_true
  have hcut : cut ['}'] (source ++ '}' :: rest) = some (source, rest) := by
    rw [cut_skip hclose]
    simp [cut, after?]
  rw [segments_brace, hcut]
  dsimp only
  rw [if_neg hopen, if_neg hblank]

/-- What is made of a text that is pending, where it ends. -/
lemma pendingText_recoded (pending : List Char) :
    (if (recoded pending).isEmpty then []
      else [TemplatePart.text (.ofList (unescape (recoded pending)))]) =
      withText (.ofList pending) [] := by
  rw [recoded_isEmpty, unescape_recoded]
  cases pending <;> simp [withText]

/-- An expression ends a text that is pending. -/
lemma templateParts_code {source : List Char} {e : Expr} (h : (Inset.code source e).Readable)
    {line : Nat} {rest : List Char} {parts : List TemplatePart}
    (hrest : templateParts line [] (segments rest) = .ok parts) (pending : List Char) :
    templateParts line (recoded pending) (segments ('{' :: (source ++ '}' :: rest))) =
      .ok (withText (.ofList pending) (.expr e :: parts)) := by
  have hread : (tokenize source >>= expressionOf plainLiteral) = .ok e := h.1
  rw [segments_code h, templateParts, hread]
  dsimp only
  rw [hrest, pendingText_recoded, withText_expr]
  rfl

/-- What is written is read back behind a text that is still pending. -/
lemma templateParts_insets {parts : List Inset} (h : ∀ p ∈ parts, p.Readable) (line : Nat)
    (pending : List Char) :
    templateParts line (recoded pending) (segments (parts.flatMap Inset.written)) =
      .ok (withText (.ofList pending) (merged (parts.map Inset.part))) := by
  induction parts generalizing pending with
  | nil =>
    rw [List.flatMap_nil, segments, templateParts, pendingText_recoded]
    rfl
  | cons part parts ih =>
    obtain ⟨hpart, hparts⟩ := List.forall_mem_cons.1 h
    cases part with
    | text s =>
      rw [List.flatMap_cons, Inset.written, templateParts_escaped, ← recoded_append, ih hparts,
        String.ofList_append, String.ofList_toList, withText_append]
      rfl
    | code source e =>
      have hpieces : (Inset.code source e :: parts).flatMap Inset.written =
          '{' :: (source ++ '}' :: parts.flatMap Inset.written) := by
        simp [Inset.written]
      have hrest := ih hparts []
      rw [show String.ofList [] = "" from rfl, withText_empty] at hrest
      rw [hpieces]
      exact templateParts_code hpart hrest pending

/-! ### Whole literals -/

lemma quotable_written {part : Inset} (h : part.Readable) : Quotable part.written := by
  match part with
  | .text s => exact .escaped true s.toList
  | .code source e =>
    have hsource : Quotable (source.flatMap fun c => [c]) := by
      refine .flatMap fun c hc => ?_
      have hplain := h.2 c hc
      simp only [List.mem_cons, not_or] at hplain
      obtain ⟨-, -, hquote, hslash, hfeed, -⟩ := hplain
      exact .plain hslash hquote hfeed
    rw [List.flatMap_singleton'] at hsource
    have hbraces : ∀ c ∈ ['{', '}'], Quotable [c] := by
      intro c hc
      simp only [List.mem_cons, List.not_mem_nil, or_false] at hc
      rcases hc with rfl | rfl <;> exact .plain (by decide) (by decide) (by decide)
    exact (hbraces '{' (by decide)).append (hsource.append (hbraces '}' (by decide)))

lemma quotable_literalOfInsets {parts : List Inset} (h : ∀ p ∈ parts, p.Readable) :
    Quotable (parts.flatMap Inset.written) :=
  .flatMap fun p hp => quotable_written (h p hp)

/-- A literal is read as what its reader makes of the text between the quotes. -/
lemma parseExpression_quoted {s : List Char} {interpolated : Bool} {e : Expr} (hs : Quotable s)
    (h : ∀ line, literalReader interpolated (.ofList s) line = .ok e) :
    parseExpression (quoted s) interpolated = .ok e := by
  obtain ⟨stop, htokens⟩ := hs.tokenize
  unfold parseExpression
  rw [htokens]
  exact expressionOf_literal h 0 stop 1

/-- A literal with an expression in it is read as its parts. -/
lemma templateLiteral_code {parts : List Inset} (h : ∀ p ∈ parts, p.Readable) {source : List Char}
    {e : Expr} (hcode : .code source e ∈ parts) (line : Nat) :
    templateLiteral (.ofList (parts.flatMap Inset.written)) line =
      .ok (.template (merged (parts.map Inset.part))) := by
  have hparts := templateParts_insets h line []
  rw [show String.ofList [] = "" from rfl, withText_empty] at hparts
  have hexpr : .expr e ∈ merged (parts.map Inset.part) :=
    expr_mem_merged (List.mem_map.2 ⟨_, hcode, rfl⟩)
  unfold templateLiteral
  rw [String.toList_ofList, show ([] : List Char) = recoded [] from rfl, hparts]
  generalize merged (parts.map Inset.part) = found at hexpr
  match found with
  | [] => cases hexpr
  | [.text s] => simp at hexpr
  | [.expr _] => rfl
  | .text _ :: _ :: _ | .expr _ :: _ :: _ => rfl

/-- A literal of texts is read as the text that they are together. -/
lemma templateLiteral_texts (texts : List String) (line : Nat) :
    templateLiteral (.ofList ((texts.map Inset.text).flatMap Inset.written)) line =
      .ok (.str (.ofList (texts.flatMap String.toList))) := by
  have hreadable : ∀ p ∈ texts.map Inset.text, p.Readable := by simp [Inset.Readable]
  have hparts := templateParts_insets hreadable line []
  have hmap : (texts.map Inset.text).map Inset.part = texts.map .text := by simp [Inset.part]
  rw [show String.ofList [] = "" from rfl, withText_empty, hmap, merged_texts] at hparts
  unfold templateLiteral
  rw [String.toList_ofList, show ([] : List Char) = recoded [] from rfl, hparts]
  generalize String.ofList (texts.flatMap String.toList) = s
  by_cases hs : s = ""
  · rw [hs]
    rfl
  · have hone : withText s [] = [.text s] := by simp [withText, hs]
    rw [hone]
    rfl

/-- A text is read from its literal, whether or not expressions may stand there. -/
lemma literalReader_escaped (interpolated : Bool) (s : String) (line : Nat) :
    literalReader interpolated (.ofList (escaped true s.toList)) line = .ok (.str s) := by
  cases interpolated with
  | true =>
    show templateLiteral _ _ = _
    simpa [Inset.written] using templateLiteral_texts [s] line
  | false => simp [literalReader, plainLiteral, unescape_escaped]

/-- **A literal is read as the parts that it was put together from.** If there is an expression
among the parts, these are read with adjacent texts merged and empty ones left out; otherwise the
texts are read as one, and so they are by the plain reader when no brace is escaped. -/
theorem parseExpression_literalOfInsets {parts : List Inset} (h : ∀ p ∈ parts, p.Readable) :
    ((∃ source e, .code source e ∈ parts) →
      parseExpression (literalOfInsets parts) true =
        .ok (.template (merged (parts.map Inset.part)))) ∧
    ∀ texts : List String, parts = texts.map .text →
      parseExpression (literalOfInsets parts) true =
        .ok (.str (.ofList (texts.flatMap String.toList))) ∧
      parseExpression (quoted (texts.flatMap fun s => escaped false s.toList)) false =
        .ok (.str (.ofList (texts.flatMap String.toList))) := by
  refine ⟨?_, ?_⟩
  · rintro ⟨source, e, hcode⟩
    exact parseExpression_quoted (quotable_literalOfInsets h) (templateLiteral_code h hcode)
  · rintro texts rfl
    refine ⟨parseExpression_quoted (quotable_literalOfInsets h) (templateLiteral_texts texts), ?_⟩
    have htexts : (texts.flatMap fun s => escaped false s.toList) =
        escaped false (texts.flatMap String.toList) := List.flatMap_assoc.symm
    rw [htexts]
    refine parseExpression_quoted (.escaped false _) fun line => ?_
    simp [literalReader, plainLiteral, unescape_escaped]

/-- Parts that together look like escapes. -/
def lookalikes : List Inset :=
  [.text "\\", .text "u\x7b7b\x7d", .code ['x'] (.ident "x"), .text "", .text "\x7d\\n"]

theorem parseExpression_literalOfInsets_lookalikes :
    (∀ p ∈ lookalikes, p.Readable) ∧
      parseExpression (literalOfInsets lookalikes) true =
        .ok (.template [.text "\\u\x7b7b\x7d", .expr (.ident "x"), .text "\x7d\\n"]) := by
  have hlexeme : lexeme? ['x'] = some (.token (.name "x"), []) := by rfl
  have hread : parseExpression ['x'] false = .ok (.ident "x") := by
    rw [parseExpression, tokenize, tokenizeFrom_token hlexeme (List.append_nil _).symm,
      tokenizeFrom]
    rfl
  have hreadable : ∀ p ∈ lookalikes, p.Readable := by
    simp only [lookalikes, List.forall_mem_cons]
    exact ⟨trivial, trivial, ⟨hread, by simp⟩, trivial, trivial, List.forall_mem_nil _⟩
  have hcode : ∃ source e, Inset.code source e ∈ lookalikes :=
    ⟨['x'], .ident "x", .tail _ (.tail _ (.head _))⟩
  exact ⟨hreadable, (parseExpression_literalOfInsets hreadable).1 hcode⟩

end ScriptedNotes.Script
