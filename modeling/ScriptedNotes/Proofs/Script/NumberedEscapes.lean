import ScriptedNotes.Proofs.Script.Interpolation

/-!
Literals without an expression in braces: each brace that opens is escaped, or belongs to a
character that is written by its number. The plain reader takes such a literal for the text that it
says. The reader that looks for expressions does so only if no character is written by its number,
because it takes the digits of one for an expression (`literal_dialects_agree_iff`). A body is
looked at as a list of characters as they are written (`Glyph`).
-/

namespace ScriptedNotes.Script

open Text

variable {quote : Char} {s raw rest before after : List Char}

/-! ### Literals by themselves -/

section

variable {literal : LiteralReader} {text : String}

lemma primary_lone {start stop line fuel : Nat} :
    primary literal (fuel + 1) ⟨none, [⟨.string text, start, stop, line⟩]⟩ =
      (literal text line).map fun e => (e, ⟨some line, []⟩) := by
  have hhead : (⟨none, [⟨.string text, start, stop, line⟩]⟩ : Cursor).head? =
      some (.string text) := rfl
  rw [primary, get_bind_apply, hhead]
  dsimp only [Cursor.line]
  cases literal text line with
  | error x => rfl
  | ok e => rfl

/-- An expression of any level that is only a literal is what the reader of literals makes of it. -/
lemma expressionAt_lone {start stop line fuel level depth : Nat} (h : level + depth = 7) :
    expressionAt literal (depth + (fuel + 2)) level ⟨none, [⟨.string text, start, stop, line⟩]⟩ =
      (literal text line).map fun e => (e, ⟨some line, []⟩) := by
  induction depth generalizing level with
  | zero =>
    obtain rfl : level = 7 := h
    rw [Nat.zero_add, expressionAt, if_neg (by decide)]
    show primary literal (fuel + 1) _ >>= _ = _
    rw [primary_lone]
    cases literal text line with
    | error x => rfl
    | ok e => rfl
  | succ depth ih =>
    rw [Nat.succ_add, expressionAt, if_pos (by omega)]
    show expressionAt literal _ (level + 1) _ >>= _ = _
    rw [ih (by omega)]
    cases literal text line with
    | error x => rfl
    | ok e => rfl

lemma expressionOf_lone (start stop line : Nat) :
    expressionOf literal [⟨.string text, start, stop, line⟩] = literal text line := by
  have hlone : expressionAt literal (6 + (52 + 2)) 1
      ⟨none, [⟨.string text, start, stop, line⟩]⟩ =
        (literal text line).map fun e => (e, ⟨some line, []⟩) := expressionAt_lone rfl
  show ((expressionAt literal 60 1 ⟨none, [_]⟩ >>= _).map _) = _
  rw [hlone]
  cases literal text line with
  | error x => rfl
  | ok e => rfl

end

/-! ### Digits -/

lemma isAlphanum_of_hexDigit? {c : Char} (h : (Number.hexDigit? c).isSome = true) :
    c.isAlphanum = true := by
  unfold Number.hexDigit? at h
  change ((decide (c.val ≥ 'A'.val ∧ c.val ≤ 'Z'.val) ||
    (decide (c.val ≥ 'a'.val) && decide (c.val ≤ 'z'.val))) || c.isDigit) = true
  simp only [Bool.or_eq_true, Bool.and_eq_true, decide_eq_true_eq, ge_iff_le]
  split_ifs at h with hdigit hlower hupper
  · exact .inr hdigit
  · exact .inl (.inr ⟨hlower.1, UInt32.le_trans hlower.2 (by decide : 'f'.val ≤ 'z'.val)⟩)
  · exact .inl (.inl ⟨hupper.1, UInt32.le_trans hupper.2 (by decide : 'F'.val ≤ 'Z'.val)⟩)
  · cases h

lemma hexDigit?_of_foldlM {digits : List Char} {m n : Nat}
    (h : digits.foldlM (fun n c => (Number.hexDigit? c).map (16 * n + ·)) m = some n) :
    ∀ c ∈ digits, (Number.hexDigit? c).isSome = true := by
  induction digits generalizing m with
  | nil => exact List.forall_mem_nil _
  | cons c digits ih =>
    simp only [List.foldlM_cons, bind, Option.bind_eq_some_iff] at h
    obtain ⟨k, hk, h⟩ := h
    obtain ⟨d, hd, -⟩ := Option.map_eq_some_iff.1 hk
    exact List.forall_mem_cons.2 ⟨Option.isSome_of_mem hd, ih h⟩

/-- Digits are not empty, and none of them is a brace or a blank. -/
lemma digits_of_hexValue? {digits : List Char} {n : Nat} (h : hexValue? digits = some n) :
    digits ≠ [] ∧ ∀ c ∈ digits, c ≠ '{' ∧ c ≠ '}' ∧ isBlank c = false := by
  have hchars : ∀ s : List Char, (∀ c ∈ s, (Number.hexDigit? c).isSome = true) →
      ∀ c ∈ s, c ≠ '{' ∧ c ≠ '}' ∧ isBlank c = false := by
    intro s hs c hc
    have halphanum := isAlphanum_of_hexDigit? (hs c hc)
    refine ⟨?_, ?_, ?_⟩
    · rintro rfl
      cases halphanum
    · rintro rfl
      cases halphanum
    · by_contra hblank
      rw [isAlphanum_of_isBlank (by simpa using hblank)] at halphanum
      cases halphanum
  simp only [hexValue?] at h
  split_ifs at h with hempty
  have hrest := hchars _ (hexDigit?_of_foldlM h)
  match hsign : after? ['+'] digits with
  | none =>
    rw [hsign] at hempty hrest
    exact ⟨by simpa using hempty, hrest⟩
  | some rest =>
    rw [hsign] at hrest
    rw [after?_eq_some_iff.1 hsign]
    exact ⟨List.cons_ne_nil _ _, List.forall_mem_cons.2 ⟨by decide, hrest⟩⟩

/-! ### Characters as they are written -/

/-- A character of a literal as it is written: as it is, behind a backslash, or by the digits of its
number. -/
inductive Glyph where
  | char (c : Char)
  | escape (c : Char)
  | number (digits : List Char) (c : Char)

namespace Glyph

def written : Glyph → List Char
  | char c => [c]
  | escape c => ['\\', c]
  | number digits _ => '\\' :: 'u' :: '{' :: (digits ++ ['}'])

/-- The character that a backslash makes of the one behind it. -/
def escapeSays (c : Char) : Char :=
  if c = 'n' then '\n' else if c = 't' then '\t' else if c = 'r' then '\r'
  else if c = '0' then '\x00' else c

/-- The character that is meant. -/
def said : Glyph → Char
  | char c => c
  | escape c => escapeSays c
  | number _ c => c

/-- Neither a backslash nor an opening brace stands for itself, and digits are those of the
character. -/
def Proper : Glyph → Prop
  | char c => c ≠ '\\' ∧ c ≠ '{'
  | escape _ => True
  | number digits c => (hexValue? digits).bind charOf? = some c

/-- Behind the cutting at braces an escaped brace is written by its number. -/
def recode : Glyph → Glyph
  | escape c => if c = '{' ∨ c = '}' then number (Nat.toDigits 16 c.toNat) c else escape c
  | g => g

def isNumber : Glyph → Bool
  | number .. => true
  | _ => false

end Glyph

/-- The text of some characters as they are written. -/
def writing (glyphs : List Glyph) : List Char :=
  glyphs.flatMap Glyph.written

lemma writing_cons (g : Glyph) (glyphs : List Glyph) :
    writing (g :: glyphs) = g.written ++ writing glyphs := rfl

lemma Glyph.written_number_append (digits : List Char) (c : Char) (s : List Char) :
    (Glyph.number digits c).written ++ s = '\\' :: 'u' :: '{' :: (digits ++ '}' :: s) := by
  simp [written]

lemma Glyph.Proper.recode {g : Glyph} (h : g.Proper) : g.recode.Proper := by
  match g with
  | .char c | .number digits c => exact h
  | .escape c =>
    rw [Glyph.recode]
    split_ifs with hbrace
    · rcases hbrace with rfl | rfl <;> rfl
    · exact h

lemma Glyph.said_recode (g : Glyph) : g.recode.said = g.said := by
  match g with
  | .char c | .number digits c => rfl
  | .escape c =>
    rw [Glyph.recode]
    split_ifs with hbrace
    · rcases hbrace with rfl | rfl <;> rfl
    · rfl

/-- No glyph begins with a brace. -/
lemma bracedChar?_writing {glyphs : List Glyph} (h : ∀ g ∈ glyphs, g.Proper) :
    bracedChar? (writing glyphs) = none := by
  match glyphs with
  | [] => rfl
  | .char c :: glyphs =>
    obtain ⟨⟨-, hbrace⟩, -⟩ := List.forall_mem_cons.1 h
    simp [bracedChar?, writing_cons, Glyph.written, after?, hbrace.symm]
  | .escape c :: glyphs => rfl
  | .number digits c :: glyphs => rfl

/-- Digits in braces are cut out with nothing else. -/
lemma cut_digits {digits : List Char} {n : Nat} (h : hexValue? digits = some n) (s : List Char) :
    cut ['}'] (digits ++ '}' :: s) = some (digits, s) := by
  rw [cut_skip fun hmem => ((digits_of_hexValue? h).2 _ hmem).2.1 rfl]
  simp [cut, after?]

lemma bracedChar?_number {digits : List Char} {c : Char} (h : (Glyph.number digits c).Proper)
    (s : List Char) : bracedChar? ('{' :: (digits ++ '}' :: s)) = some (c, s) := by
  obtain ⟨n, hn, hc⟩ := Option.bind_eq_some_iff.1 h
  have hafter : after? ['{'] ('{' :: (digits ++ '}' :: s)) = some (digits ++ '}' :: s) :=
    after?_eq_some_iff.2 rfl
  simp only [bracedChar?, hafter, cut_digits hn, hn, hc, bind, Option.bind_some, pure]

/-- A character in braces is a number with its digits. -/
lemma exists_number {c : Char} (h : bracedChar? s = some (c, rest)) :
    ∃ digits, (Glyph.number digits c).Proper ∧
      '\\' :: 'u' :: s = (Glyph.number digits c).written ++ rest := by
  simp only [bracedChar?, bind, Option.bind_eq_some_iff, pure, Option.some.injEq] at h
  obtain ⟨t, ht, ⟨digits, rest'⟩, hcut, n, hn, c', hc, he⟩ := h
  cases he
  refine ⟨digits, Option.bind_eq_some_iff.2 ⟨n, hn, hc⟩, ?_⟩
  rw [after?_eq_some_iff.1 ht, cut_eq_some hcut]
  simp [Glyph.written]

lemma unescape_written {g : Glyph} (hg : g.Proper) (h : bracedChar? s = none) :
    unescape (g.written ++ s) = g.said :: unescape s := by
  match g with
  | .char c =>
    rw [Glyph.written, List.singleton_append, unescape]
    all_goals simp [hg.1, Glyph.said]
  | .escape c =>
    rw [Glyph.written, Glyph.said, Glyph.escapeSays, List.cons_append, List.singleton_append]
    split_ifs with h1 h2 h3 h4
    · rw [h1, unescape]
    · rw [h2, unescape]
    · rw [h3, unescape]
    · rw [h4, unescape]
    · -- A number would begin with this letter, but no brace follows it.
      by_cases hu : c = 'u'
      · rw [hu, unescape]
        split
        · next hfound =>
          rw [h] at hfound
          cases hfound
        · rfl
      · rw [unescape]
        all_goals simp [*]
  | .number digits c =>
    have hread := bracedChar?_number hg s
    rw [Glyph.written_number_append, unescape]
    split
    · next hfound =>
      rw [hread] at hfound
      cases hfound
      rfl
    · next hfound =>
      rw [hread] at hfound
      cases hfound

/-- What is written says what is meant. -/
lemma unescape_writing {glyphs : List Glyph} (h : ∀ g ∈ glyphs, g.Proper) :
    unescape (writing glyphs) = glyphs.map Glyph.said := by
  induction glyphs with
  | nil => simp [writing, unescape]
  | cons g glyphs ih =>
    obtain ⟨hg, hglyphs⟩ := List.forall_mem_cons.1 h
    rw [writing_cons, unescape_written hg (bracedChar?_writing hglyphs), ih hglyphs, List.map_cons]

/-! ### Cutting at the braces -/

/-- What a character becomes where a literal is cut at its braces: the digits of a number are taken
for code. -/
def Glyph.segments : Glyph → List Segment
  | char c => [.text [c]]
  | escape c => [.text (escape c).recode.written]
  | number digits _ => [.text ['\\', 'u'], .code digits]

lemma segments_written {g : Glyph} (h : g.Proper) (s : List Char) :
    segments (g.written ++ s) = g.segments ++ segments s := by
  match g with
  | .char c =>
    rw [Glyph.written, List.singleton_append, segments]
    · rfl
    all_goals simp [h.1, h.2]
  | .escape c =>
    rw [Glyph.written, List.cons_append, List.singleton_append, Glyph.segments, Glyph.recode]
    by_cases hopen : c = '{'
    · rw [hopen, segments]
      rfl
    by_cases hclose : c = '}'
    · rw [hclose, segments]
      rfl
    rw [if_neg (not_or.2 ⟨hopen, hclose⟩), segments]
    · rfl
    all_goals assumption
  | .number digits c =>
    obtain ⟨n, hn, -⟩ := Option.bind_eq_some_iff.1 h
    obtain ⟨hne, hdigits⟩ := digits_of_hexValue? hn
    have hbrace : ¬ digits.contains '{' = true := fun hmem =>
      (hdigits _ (List.contains_iff_mem.1 hmem)).1 rfl
    have hblank : ¬ allBlank digits = true := by
      obtain ⟨d, digits, rfl⟩ := List.exists_cons_of_ne_nil hne
      rw [allBlank, List.all_cons, (hdigits d List.mem_cons_self).2.2, Bool.false_and]
      exact Bool.false_ne_true
    rw [Glyph.written_number_append, segments, segments_brace, cut_digits hn]
    · dsimp only
      rw [if_neg hbrace, if_neg hblank]
      rfl
    all_goals simp

lemma segments_writing {glyphs : List Glyph} (h : ∀ g ∈ glyphs, g.Proper) :
    segments (writing glyphs) = glyphs.flatMap Glyph.segments := by
  induction glyphs with
  | nil => simp [writing, segments]
  | cons g glyphs ih =>
    obtain ⟨hg, hglyphs⟩ := List.forall_mem_cons.1 h
    rw [writing_cons, segments_written hg, ih hglyphs, List.flatMap_cons]

/-- Code among the segments leaves an expression among the parts. -/
lemma exists_expr_of_code {line : Nat} {pending source : List Char} {found : List Segment}
    {parts : List TemplatePart} (hcode : .code source ∈ found)
    (h : templateParts line pending found = .ok parts) : ∃ e, .expr e ∈ parts := by
  induction found generalizing pending parts with
  | nil => cases hcode
  | cons segment found ih =>
    match segment with
    | .text raw =>
      rw [templateParts] at h
      exact ih (by simpa using hcode) h
    | .nested =>
      rw [templateParts] at h
      cases h
    | .code source' =>
      rw [templateParts] at h
      split at h
      · cases h
      · next e _ =>
        cases hrest : templateParts line [] found with
        | error x =>
          rw [hrest] at h
          cases h
        | ok rest =>
          rw [hrest] at h
          cases h
          exact ⟨e, List.mem_append_right _ List.mem_cons_self⟩

/-- Text alone is resolved as one. -/
lemma templateParts_texts (line : Nat) (pending : List Char) (texts : List (List Char)) :
    templateParts line pending (texts.map .text) =
      .ok (if (pending ++ texts.flatten).isEmpty then []
        else [.text (.ofList (unescape (pending ++ texts.flatten)))]) := by
  induction texts generalizing pending with
  | nil => rw [List.map_nil, templateParts, List.flatten_nil, List.append_nil]
  | cons raw texts ih =>
    rw [List.map_cons, templateParts, ih, List.flatten_cons, List.append_assoc]

variable {glyphs : List Glyph}

/-- Cutting keeps what is meant. -/
lemma unescape_writing_recode (h : ∀ g ∈ glyphs, g.Proper) :
    unescape (writing (glyphs.map Glyph.recode)) = unescape (writing glyphs) := by
  have hproper : ∀ g ∈ glyphs.map Glyph.recode, g.Proper := by
    intro g hg
    obtain ⟨g, hmem, rfl⟩ := List.mem_map.1 hg
    exact (h g hmem).recode
  rw [unescape_writing hproper, unescape_writing h, List.map_map]
  exact List.map_congr_left fun g _ => g.said_recode

/-- Without numbers all segments are text. -/
lemma flatMap_segments (hplain : ∀ g ∈ glyphs, g.isNumber = false) :
    glyphs.flatMap Glyph.segments = (glyphs.map fun g => g.recode.written).map .text := by
  rw [List.map_map, List.map_eq_flatMap]
  refine List.flatMap_congr fun g hg => ?_
  match g, hplain g hg with
  | .char c, _ | .escape c, _ => rfl

/-- Without numbers a literal is read as the text that it says. -/
lemma templateLiteral_writing (h : ∀ g ∈ glyphs, g.Proper)
    (hplain : ∀ g ∈ glyphs, g.isNumber = false) (line : Nat) :
    templateLiteral (.ofList (writing glyphs)) line =
      .ok (.str (.ofList (unescape (writing glyphs)))) := by
  have hwriting : (glyphs.map fun g => g.recode.written).flatten =
      writing (glyphs.map Glyph.recode) := by
    rw [writing, List.flatMap_def, List.map_map]
    rfl
  unfold templateLiteral
  rw [String.toList_ofList, segments_writing h, flatMap_segments hplain, templateParts_texts,
    List.nil_append, hwriting, ← unescape_writing_recode h]
  generalize writing (glyphs.map Glyph.recode) = text
  match text with
  | [] =>
    simp only [unescape]
    rfl
  | c :: text => rfl

/-- With a number among them it is not read as a text. -/
lemma templateLiteral_number (h : ∀ g ∈ glyphs, g.Proper) {g : Glyph} (hmem : g ∈ glyphs)
    (hnumber : g.isNumber = true) (line : Nat) (text : String) :
    templateLiteral (.ofList (writing glyphs)) line ≠ .ok (.str text) := by
  match g with
  | .number digits c =>
    have hcode : .code digits ∈ segments (writing glyphs) := by
      rw [segments_writing h]
      exact List.mem_flatMap.2 ⟨_, hmem, .tail _ (.head _)⟩
    unfold templateLiteral
    rw [String.toList_ofList]
    cases hparts : templateParts line [] (segments (writing glyphs)) with
    | error x => exact fun he => nomatch he
    | ok parts =>
      obtain ⟨e, he⟩ := exists_expr_of_code hcode hparts
      match parts with
      | [] => cases he
      | [.text s] => simp at he
      | [.expr _] => exact fun he => nomatch he
      | .text _ :: _ :: _ | .expr _ :: _ :: _ => exact fun he => nomatch he

/-! ### Braces of a text -/

/-- Whether a text ends in a backslash that escapes the character behind it. -/
def endsInEscape (s : List Char) : Bool :=
  s.foldl (fun escaped c => !escaped && c == '\\') false

/-- An opening brace with `before` in front of it and `after` behind it belongs to a character that
is written by its number. -/
def OpensNumber (before after : List Char) : Prop :=
  ∃ w, before = w ++ ['u'] ∧ endsInEscape w = true ∧ (bracedChar? ('{' :: after)).isSome = true

/-- Each opening brace is escaped. -/
def BracesEscaped (s : List Char) : Prop :=
  ∀ before after, s = before ++ '{' :: after → endsInEscape before = true

/-- Each opening brace is escaped or belongs to a character that is written by its number. -/
def WithoutInset (s : List Char) : Prop :=
  ∀ before after, s = before ++ '{' :: after → endsInEscape before = true ∨ OpensNumber before after

lemma endsInEscape_append (h : endsInEscape s = false) (t : List Char) :
    endsInEscape (s ++ t) = endsInEscape t := by
  unfold endsInEscape at h ⊢
  rw [List.foldl_append, h]

lemma endsInEscape_written {g : Glyph} (h : g.Proper) : endsInEscape g.written = false := by
  match g with
  | .char c => simp [Glyph.written, endsInEscape, h.1]
  | .escape c => rfl
  | .number digits c => simp [Glyph.written, endsInEscape]

lemma endsInEscape_writing (h : ∀ g ∈ glyphs, g.Proper) :
    endsInEscape (writing glyphs) = false := by
  induction glyphs with
  | nil => rfl
  | cons g glyphs ih =>
    obtain ⟨hg, hglyphs⟩ := List.forall_mem_cons.1 h
    rw [writing_cons, endsInEscape_append (endsInEscape_written hg), ih hglyphs]

/-- A beginning that escapes nothing can be left out, unless it is that of a number. -/
lemma WithoutInset.of_append (hs : endsInEscape s = false)
    (hnumber : ∀ after, rest = '{' :: after → ¬ OpensNumber s after)
    (h : WithoutInset (s ++ rest)) : WithoutInset rest := by
  rintro before after rfl
  rcases h (s ++ before) after (List.append_assoc s before _).symm with hescaped | hopens
  · rw [endsInEscape_append hs] at hescaped
    exact .inl hescaped
  · rcases List.eq_nil_or_concat before with rfl | ⟨w, c, rfl⟩
    · rw [List.append_nil] at hopens
      exact absurd hopens (hnumber after rfl)
    · obtain ⟨v, hv, hescaped, hread⟩ := hopens
      rw [List.concat_eq_append, ← List.append_assoc] at hv
      obtain ⟨rfl, hc⟩ := List.append_inj' hv rfl
      rw [endsInEscape_append hs] at hescaped
      exact .inr ⟨w, by rw [List.concat_eq_append, hc], hescaped, hread⟩

/-- A text that goes on begins with a character as it is written. -/
lemma exists_glyph (hne : s ≠ []) (hend : endsInEscape s = false) (h : WithoutInset s) :
    ∃ (g : Glyph) (rest : List Char), g.Proper ∧ s = g.written ++ rest ∧
      ∀ after, rest = '{' :: after → ¬ OpensNumber g.written after := by
  obtain ⟨c, s, rfl⟩ := List.exists_cons_of_ne_nil hne
  by_cases hc : c = '\\'
  · subst hc
    match s with
    | [] => cases hend
    | d :: rest =>
      by_cases hread : d = 'u' ∧ (bracedChar? rest).isSome = true
      · obtain ⟨rfl, hread⟩ := hread
        obtain ⟨⟨e, rest'⟩, hread⟩ := Option.isSome_iff_exists.1 hread
        obtain ⟨digits, hdigits, hs⟩ := exists_number hread
        refine ⟨.number digits e, rest', hdigits, hs, ?_⟩
        rintro after - ⟨w, hw, -⟩
        have hparts : '\\' :: 'u' :: '{' :: digits ++ ['}'] = w ++ ['u'] := hw
        cases (List.append_inj' hparts rfl).2
      · -- A brace behind an escaped `u` would have made this a number.
        refine ⟨.escape d, rest, trivial, rfl, ?_⟩
        rintro after rfl ⟨w, hw, -, hsome⟩
        obtain ⟨-, hd⟩ := List.append_inj' (show ['\\'] ++ [d] = w ++ ['u'] from hw) rfl
        exact hread ⟨(List.cons.inj hd).1, hsome⟩
  · refine ⟨.char c, s, ⟨hc, ?_⟩, rfl, ?_⟩
    · rintro rfl
      rcases h [] s rfl with hescaped | ⟨w, hw, -⟩
      · cases hescaped
      · simp at hw
    · rintro after - ⟨w, hw, hescaped, -⟩
      obtain ⟨rfl, -⟩ := List.append_inj' (show [] ++ [c] = w ++ ['u'] from hw) rfl
      cases hescaped

/-- A text is made of characters as they are written, if no brace opens an expression. -/
lemma exists_glyphs (hend : endsInEscape s = false) (h : WithoutInset s) :
    ∃ glyphs, (∀ g ∈ glyphs, g.Proper) ∧ s = writing glyphs := by
  induction hlength : s.length using Nat.strong_induction_on generalizing s with
  | _ n ih =>
    by_cases hne : s = []
    · exact ⟨[], List.forall_mem_nil _, hne⟩
    · obtain ⟨g, rest, hg, rfl, hnumber⟩ := exists_glyph hne hend h
      have hwritten := endsInEscape_written hg
      have hlt : rest.length < n := by
        have hpos : 0 < g.written.length := by cases g <;> simp [Glyph.written]
        rw [← hlength, List.length_append]
        omega
      rw [endsInEscape_append hwritten] at hend
      obtain ⟨glyphs, hglyphs, hrest⟩ := ih _ hlt hend (h.of_append hwritten hnumber) rfl
      exact ⟨g :: glyphs, List.forall_mem_cons.2 ⟨hg, hglyphs⟩, by rw [writing_cons, ← hrest]⟩

/-- Without numbers the only braces are the escaped ones. -/
lemma bracesEscaped_writing (hplain : ∀ g ∈ glyphs, g.Proper ∧ g.isNumber = false) :
    BracesEscaped (writing glyphs) := by
  induction glyphs with
  | nil =>
    intro before after h
    simp [writing] at h
  | cons g glyphs ih =>
    obtain ⟨⟨hg, hnumber⟩, hglyphs⟩ := List.forall_mem_cons.1 hplain
    intro before after h
    rw [writing_cons] at h
    match g with
    | .char c =>
      match before with
      | [] => exact absurd (List.cons.inj h).1 hg.2
      | d :: before =>
        obtain ⟨rfl, hrest⟩ := List.cons.inj h
        exact (endsInEscape_append (endsInEscape_written hg) before).trans
          (ih hglyphs before after hrest)
    | .escape c =>
      match before with
      | [] => cases (List.cons.inj h).1
      | [d] =>
        obtain ⟨rfl, -⟩ := List.cons.inj h
        rfl
      | d :: e :: before =>
        obtain ⟨rfl, hbehind⟩ := List.cons.inj h
        obtain ⟨rfl, hrest⟩ := List.cons.inj hbehind
        exact (endsInEscape_append (endsInEscape_written hg) before).trans
          (ih hglyphs before after hrest)

lemma not_bracesEscaped_writing (h : ∀ g ∈ glyphs, g.Proper) {g : Glyph} (hmem : g ∈ glyphs)
    (hnumber : g.isNumber = true) : ¬ BracesEscaped (writing glyphs) := by
  obtain ⟨front, back, rfl⟩ := List.append_of_mem hmem
  match g with
  | .number digits c =>
    intro hescaped
    have hfront := endsInEscape_writing fun g hg => h g (List.mem_append_left _ hg)
    have hbrace := hescaped (writing front ++ ['\\', 'u']) (digits ++ '}' :: writing back)
      (by simp [writing, Glyph.written])
    rw [endsInEscape_append hfront] at hbrace
    cases hbrace

/-! ### The two readers -/

/-- What the lexer takes for the body of a literal is taken so by itself. -/
lemma stringRest_self (hquote : quote ≠ '\\') (h : stringRest quote s = some (raw, rest)) :
    stringRest quote (raw ++ [quote]) = some (raw, []) ∧ endsInEscape raw = false := by
  induction s using stringRest.induct quote generalizing raw rest with
  | case1 => simp [stringRest] at h
  | case2 s => simp [stringRest] at h
  | case3 c s hc ih =>
    simp only [stringRest, if_neg hc] at h
    obtain ⟨⟨raw', rest'⟩, hr, he⟩ := Option.map_eq_some_iff.1 h
    cases he
    obtain ⟨hself, hend⟩ := ih hr
    refine ⟨?_, (endsInEscape_append (s := ['\\', c]) rfl raw').trans hend⟩
    simp [stringRest, hc, hself]
  | case4 s hs =>
    rw [stringRest_cons hquote, if_pos rfl] at h
    cases h
    rw [List.nil_append, stringRest_cons hquote, if_pos rfl]
    exact ⟨rfl, rfl⟩
  | case5 c s hs hq hc =>
    rw [stringRest, if_neg hq, if_pos hc] at h
    · cases h
    · exact hs
  | case6 c s hs hq hc ih =>
    rw [not_or] at hc
    rw [stringRest_cons hc.1, if_neg hq, if_neg hc.2] at h
    obtain ⟨⟨raw', rest'⟩, hr, he⟩ := Option.map_eq_some_iff.1 h
    cases he
    obtain ⟨hself, hend⟩ := ih hr
    refine ⟨?_, (endsInEscape_append (s := [c]) (by simp [endsInEscape, hc.1]) raw').trans hend⟩
    rw [List.cons_append, stringRest_cons hc.1, if_neg hq, if_neg hc.2, hself]
    rfl

/-- A literal is what its reader makes of the text between the quotes. -/
lemma parseExpression_literal (hquote : quote = '"' ∨ quote = '\'')
    (h : stringRest quote s = some (raw, rest)) (interpolated : Bool) :
    parseExpression (quote :: (raw ++ [quote])) interpolated =
      literalReader interpolated (.ofList raw) 1 := by
  have hslash : quote ≠ '\\' := by rcases hquote with rfl | rfl <;> decide
  have hlexeme : lexeme? (quote :: (raw ++ [quote])) =
      some (.token (.string (.ofList raw)), []) := by
    have hcomment : opensComment (quote :: (raw ++ [quote])) = false := by
      rcases hquote with rfl | rfl <;> cases raw <;> rfl
    have hplain : plainLexeme? quote (raw ++ [quote]) =
        (stringRest quote (raw ++ [quote])).map fun found =>
          (.token (.string (.ofList found.1)), found.2) := by
      rcases hquote with rfl | rfl <;> rfl
    rw [lexeme?_cons hcomment, hplain, (stringRest_self hslash h).1]
    rfl
  rw [parseExpression, tokenize, tokenizeFrom_token hlexeme (List.append_nil _).symm,
    tokenizeFrom]
  exact expressionOf_lone _ _ _

/-- **When the two readers agree on a literal.** Take any body that is read up to its quote and in
which no brace opens an expression. The plain reader takes it for the text that it says. The reader
that looks for expressions does so as well if each opening brace is escaped; and if one belongs to
a character that is written by its number, it takes the body for no text at all. -/
theorem literal_dialects_agree_iff (hquote : quote = '"' ∨ quote = '\'')
    (haccepted : stringRest quote s = some (raw, rest)) (hinset : WithoutInset raw) :
    ((∀ line, literalReader false (.ofList raw) line = .ok (.str (.ofList (unescape raw)))) ∧
      parseExpression (quote :: (raw ++ [quote])) false = .ok (.str (.ofList (unescape raw)))) ∧
    (BracesEscaped raw →
      (∀ line, literalReader true (.ofList raw) line = .ok (.str (.ofList (unescape raw)))) ∧
      parseExpression (quote :: (raw ++ [quote])) true = .ok (.str (.ofList (unescape raw)))) ∧
    (¬ BracesEscaped raw → ∀ text,
      (∀ line, literalReader true (.ofList raw) line ≠ .ok (.str text)) ∧
      parseExpression (quote :: (raw ++ [quote])) true ≠ .ok (.str text)) := by
  have hslash : quote ≠ '\\' := by rcases hquote with rfl | rfl <;> decide
  have hparse := parseExpression_literal hquote haccepted
  have hplain : ∀ line,
      literalReader false (.ofList raw) line = .ok (.str (.ofList (unescape raw))) := by
    intro line
    simp [literalReader, plainLiteral]
  obtain ⟨glyphs, hproper, rfl⟩ := exists_glyphs (stringRest_self hslash haccepted).2 hinset
  refine ⟨⟨hplain, (hparse false).trans (hplain 1)⟩, fun hescaped => ?_, fun hnot text => ?_⟩
  · have hnumber : ∀ g ∈ glyphs, g.isNumber = false := fun g hg =>
      Bool.eq_false_iff.2 fun hnumber => not_bracesEscaped_writing hproper hg hnumber hescaped
    have hread := templateLiteral_writing hproper hnumber
    exact ⟨hread, (hparse true).trans (hread 1)⟩
  · obtain ⟨g, hg, hnumber⟩ : ∃ g ∈ glyphs, g.isNumber = true := by
      by_contra hnone
      push Not at hnone
      exact hnot (bracesEscaped_writing fun g hg =>
        ⟨hproper g hg, Bool.eq_false_iff.2 (hnone g hg)⟩)
    have hread := fun line => templateLiteral_number hproper hg hnumber line text
    exact ⟨hread, fun h => hread 1 ((hparse true).symm.trans h)⟩

/-- A body with escapes of several kinds next to each other. -/
def escapesAlike : List Glyph :=
  [.escape 'u', .escape '{', .char '7', .escape '}', .escape 'n', .escape '\\', .char 'u',
    .escape '{']

theorem literal_dialects_agree_iff_escapesAlike :
    writing escapesAlike = "\\u\\\x7b7\\\x7d\\n\\\\u\\\x7b".toList ∧
      parseExpression ('"' :: (writing escapesAlike ++ ['"'])) true =
        .ok (.str "u\x7b7\x7d\n\\u\x7b") ∧
      parseExpression ('"' :: (writing escapesAlike ++ ['"'])) false =
        .ok (.str "u\x7b7\x7d\n\\u\x7b") := by
  have hglyphs : ∀ g ∈ escapesAlike, g.Proper ∧ g.isNumber = false := by
    simp [escapesAlike, Glyph.Proper, Glyph.isNumber]
  have hescaped := bracesEscaped_writing hglyphs
  have haccepted : stringRest '"' (writing escapesAlike ++ ['"']) =
      some (writing escapesAlike, []) := by decide +kernel
  have hagree := literal_dialects_agree_iff (.inl rfl) haccepted fun before after h =>
    .inl (hescaped before after h)
  rw [unescape_writing fun g hg => (hglyphs g hg).1] at hagree
  exact ⟨rfl, (hagree.2.1 hescaped).2, hagree.1.2⟩

/-- A character written by its number. -/
def numberedLetter : List Glyph :=
  [.number ['e', '9'] 'é']

/-- The readers differ on it: one finds the letter, the other a name in braces. -/
theorem numbered_letter_read_as_code :
    writing numberedLetter = "\\u\x7be9\x7d".toList ∧ WithoutInset (writing numberedLetter) ∧
      stringRest '"' (writing numberedLetter ++ ['"']) = some (writing numberedLetter, []) ∧
      parseExpression ('"' :: (writing numberedLetter ++ ['"'])) false = .ok (.str "é") ∧
      parseExpression ('"' :: (writing numberedLetter ++ ['"'])) true =
        .ok (.template [.text "u", .expr (.ident "e9")]) := by
  have hproper : ∀ g ∈ numberedLetter, g.Proper := by
    intro g hg
    rw [List.mem_singleton.1 hg]
    rfl
  have haccepted : stringRest '"' (writing numberedLetter ++ ['"']) =
      some (writing numberedLetter, []) := by decide +kernel
  have hinset : WithoutInset (writing numberedLetter) := by
    intro before after h
    rcases before with _ | ⟨_, _ | ⟨_, _ | ⟨_, before⟩⟩⟩
    · cases h
    · cases h
    · cases h
      exact .inr ⟨['\\'], rfl, rfl, by decide +kernel⟩
    · have hbehind : ['e', '9', '}'] = before ++ '{' :: after := congrArg (List.drop 3) h
      have hmem : '{' ∈ ['e', '9', '}'] := by
        rw [hbehind]
        exact List.mem_append_right before List.mem_cons_self
      simp at hmem
  have hparse := parseExpression_literal (.inl rfl) haccepted
  have hcode : tokenize ['e', '9'] >>= expressionOf plainLiteral = .ok (.ident "e9") := by
    have hlexeme : lexeme? ['e', '9'] = some (.token (.name "e9"), []) := by rfl
    rw [tokenize, tokenizeFrom_token hlexeme (List.append_nil _).symm, tokenizeFrom]
    rfl
  refine ⟨rfl, hinset, haccepted, (hparse false).trans ?_, (hparse true).trans ?_⟩
  · show plainLiteral (.ofList (writing numberedLetter)) 1 = _
    rw [plainLiteral, String.toList_ofList, unescape_writing hproper]
    rfl
  · show templateLiteral (.ofList (writing numberedLetter)) 1 = _
    have hparts : templateParts 1 [] (segments (writing numberedLetter)) =
        .ok [.text "u", .expr (.ident "e9")] := by
      rw [segments_writing hproper]
      show templateParts 1 [] [.text ['\\', 'u'], .code ['e', '9']] = _
      rw [templateParts, templateParts, hcode, templateParts]
      simp [unescape, bracedChar?, after?]
    unfold templateLiteral
    rw [String.toList_ofList, hparts]
    rfl

end ScriptedNotes.Script
