import Mathlib.Data.List.Forall2
import ScriptedNotes.Proofs.Script.Escaping
import ScriptedNotes.Proofs.Script.Lexeme
import ScriptedNotes.Proofs.Script.Lockstep
import ScriptedNotes.Proofs.Text.Scanning
import ScriptedNotes.Script.Compile

/-!
What a message says. The text of a failure quotes the source and puts words of its own around the
quote; the words are made of ordinary characters. So any other character that stands in a message
stands in the source (`compile_drawnFrom`).
-/

namespace ScriptedNotes.Script

open Text

/-- Each character of a text stands in the source or is ordinary. -/
def DrawnFrom (source : List Char) (text : String) : Prop :=
  ∀ c ∈ text.toList, c ∈ source ∨ isOrdinary c = true

/-! ### Texts -/

namespace DrawnFrom

variable {source inner : List Char} {s t : String}

lemma fixed (h : s.toList.all isOrdinary = true) : DrawnFrom source s :=
  fun c hc => .inr (List.all_eq_true.1 h c hc)

lemma append (hs : DrawnFrom source s) (ht : DrawnFrom source t) : DrawnFrom source (s ++ t) := by
  intro c hc
  rw [String.toList_append, List.mem_append] at hc
  rcases hc with hc | hc
  · exact hs c hc
  · exact ht c hc

lemma ofList {l : List Char} (h : ∀ c ∈ l, c ∈ source ∨ isOrdinary c = true) :
    DrawnFrom source (.ofList l) := by
  intro c hc
  rw [String.toList_ofList] at hc
  exact h c hc

/-- A piece of the source. -/
lemma piece {l : List Char} (h : l ⊆ source) : DrawnFrom source (.ofList l) :=
  .ofList fun _ hc => .inl (h hc)

lemma of_append_left (h : DrawnFrom source (s ++ t)) : DrawnFrom source s := fun c hc =>
  h c (by rw [String.toList_append]; exact List.mem_append_left _ hc)

lemma of_append_right (h : DrawnFrom source (s ++ t)) : DrawnFrom source t := fun c hc =>
  h c (by rw [String.toList_append]; exact List.mem_append_right _ hc)

/-- What is drawn from a text is drawn from all that this text is drawn from. -/
lemma trans (h : DrawnFrom inner s) (hinner : DrawnFrom source (.ofList inner)) :
    DrawnFrom source s := by
  intro c hc
  rcases h c hc with hc | hc
  · exact hinner c (by rwa [String.toList_ofList])
  · exact .inr hc

end DrawnFrom

section

variable {source : List Char}

lemma drawnFrom_toString (n : Nat) : DrawnFrom source (toString n) := by
  intro c hc
  change c ∈ n.repr.toList at hc
  rw [Nat.toList_repr] at hc
  exact .inr (isOrdinary_of_mem_toDigits hc)

lemma drawnFrom_zeros (n : Nat) : DrawnFrom source (Number.zeros n) := by
  refine .ofList fun c hc => .inr ?_
  rw [(List.mem_replicate.1 hc).2]
  decide

lemma drawnFrom_pointed (d : Number.Decimal) : DrawnFrom source (Number.pointed false d) := by
  have hdigits : ∀ l ⊆ Nat.toDigits 10 d.digits, DrawnFrom source (.ofList l) :=
    fun l hl => .ofList fun c hc => .inr (isOrdinary_of_mem_toDigits (hl hc))
  unfold Number.pointed
  simp only [Bool.false_eq_true, if_false]
  split_ifs
  · exact ((hdigits _ (List.Subset.refl _)).append (drawnFrom_zeros _)).append (.fixed (by decide))
  · exact ((hdigits _ (List.take_subset _ _)).append (.fixed (by decide))).append
      (hdigits _ (List.drop_subset _ _))
  · exact (DrawnFrom.append (.fixed (by decide)) (drawnFrom_zeros _)).append
      (hdigits _ (List.Subset.refl _))

lemma drawnFrom_literal (x : Float) : DrawnFrom source (Number.literal x) := by
  unfold Number.literal Number.Layout.render
  split
  · exact .fixed (by decide)
  · split_ifs <;> exact .fixed (by decide)
  · refine .append ?_ (drawnFrom_pointed _)
    split_ifs <;> exact .fixed (by decide)

end

/-! ### Tokens -/

section

variable {source s rest : List Char}

lemma drawnFrom_quote {t : String} (h : DrawnFrom source t) :
    DrawnFrom source ("'" ++ t ++ "'") :=
  ((DrawnFrom.fixed (by decide)).append h).append (.fixed (by decide))

lemma drawnFrom_keyword (k : Keyword) : DrawnFrom source (Token.keyword k).display :=
  drawnFrom_quote (.fixed (by cases k <;> decide))

lemma drawnFrom_symbol (y : Symbol) : DrawnFrom source (Token.symbol y).display :=
  drawnFrom_quote (.fixed (by cases y <;> decide))

lemma wordToken_cases (word : String) :
    (∃ k, wordToken word = .keyword k) ∨ (∃ y, wordToken word = .symbol y) ∨
      wordToken word = .name word := by
  unfold wordToken
  split <;> simp

lemma drawnFrom_wordToken {word : String} (h : DrawnFrom source word) :
    DrawnFrom source (wordToken word).display := by
  rcases wordToken_cases word with ⟨k, hk⟩ | ⟨y, hy⟩ | hname
  · rw [hk]
    exact drawnFrom_keyword k
  · rw [hy]
    exact drawnFrom_symbol y
  · rw [hname]
    exact drawnFrom_quote h

/-- A token is shown with characters of its source. -/
lemma drawnFrom_lexeme {t : Token} (h : lexeme? s = some (.token t, rest)) :
    DrawnFrom s t.display := by
  match s with
  | [] => cases h
  | c :: s =>
    rw [lexeme?_cons (not_opensComment_of_token h)] at h
    unfold plainLexeme? at h
    split_ifs at h
    · cases h
    · cases h
      exact drawnFrom_wordToken (.piece (List.takeWhile_subset _))
    · cases h
      exact (DrawnFrom.fixed (by decide)).append (drawnFrom_literal _)
    · obtain ⟨⟨raw, rest⟩, hraw, he⟩ := Option.map_eq_some_iff.1 h
      cases he
      have hpiece : raw ⊆ c :: s := by
        rw [stringRest_eq_append hraw]
        exact fun _ hd => List.mem_cons_of_mem _ (List.mem_append_left _ hd)
      exact ((DrawnFrom.fixed (by decide)).append (.piece hpiece)).append (.fixed (by decide))
    · obtain ⟨⟨y, rest⟩, -, he⟩ := Option.map_eq_some_iff.1 h
      cases he
      exact drawnFrom_symbol y

/-- Each token is shown with characters of the source. -/
def TokensDrawnFrom (source : List Char) (tokens : List Located) : Prop :=
  ∀ t ∈ tokens, DrawnFrom source t.token.display

/-- The failure of a reader says nothing that is not drawn from the source. -/
def Explained {α : Type} (source : List Char) (x : Except SyntaxError α) : Prop :=
  ∀ e, x = .error e → DrawnFrom source e.reason

lemma drawnFrom_atLine {t : String} {line : Nat} (h : DrawnFrom source t) :
    DrawnFrom source (SyntaxError.atLine line t) :=
  ((h.append (.fixed (by decide))).append (drawnFrom_toString line)).append (.fixed (by decide))

lemma drawnFrom_stuckAt {c : Char} {line : Nat} (h : c ∈ source) :
    DrawnFrom source (stuckAt c line).reason := by
  unfold stuckAt
  split_ifs
  · exact drawnFrom_atLine (.fixed (by decide))
  · refine drawnFrom_atLine (((DrawnFrom.fixed (by decide)).append ?_).append (.fixed (by decide)))
    intro d hd
    rw [Char.toString, String.toList_singleton, List.mem_singleton] at hd
    exact .inl (hd ▸ h)

/-- Cutting into tokens shows characters of the source only, in its tokens and its failures. -/
lemma tokenizeFrom_drawnFrom (pos line : Nat) (hs : s ⊆ source) :
    (∀ tokens, tokenizeFrom pos line s = .ok tokens → TokensDrawnFrom source tokens) ∧
      Explained source (tokenizeFrom pos line s) := by
  induction hn : s.length using Nat.strong_induction_on generalizing pos line s with
  | _ n ih =>
    cases s with
    | nil =>
      rw [tokenizeFrom]
      refine ⟨?_, fun e he => by cases he⟩
      rintro tokens ⟨⟩ t ht
      cases ht
    | cons c s =>
      cases hx : lexeme? (c :: s) with
      | none =>
        rw [tokenizeFrom, hx]
        refine ⟨fun tokens h => (by cases h), ?_⟩
        rintro e ⟨⟩
        exact drawnFrom_stuckAt (hs List.mem_cons_self)
      | some found =>
        obtain ⟨x, rest⟩ := found
        obtain ⟨covered, -, he⟩ := lexeme?_eq_append hx
        have hrest : rest ⊆ source := fun d hd => hs (he ▸ List.mem_append_right _ hd)
        obtain ⟨htokens, hfail⟩ := ih rest.length (hn ▸ (take_of_lexeme? hx he).1)
          (pos + byteSize covered) (line + lineFeeds covered) hrest rfl
        cases x with
        | gap =>
          rw [tokenizeFrom_gap hx he]
          exact ⟨htokens, hfail⟩
        | token t =>
          rw [tokenizeFrom_token hx he]
          cases hcut : tokenizeFrom (pos + byteSize covered) (line + lineFeeds covered) rest with
          | error e =>
            refine ⟨fun tokens h => (by cases h), ?_⟩
            rintro e' ⟨⟩
            exact hfail e hcut
          | ok tokens =>
            refine ⟨?_, fun e h => by cases h⟩
            rintro tokens' ⟨⟩ u hu
            rcases List.mem_cons.1 hu with rfl | hu
            · exact (drawnFrom_lexeme hx).trans (.piece hs)
            · exact htokens tokens hcut u hu

lemma tokenize_drawnFrom {tokens : List Located} (h : tokenize s = .ok tokens) :
    TokensDrawnFrom s tokens :=
  (tokenizeFrom_drawnFrom 0 1 (List.Subset.refl s)).1 tokens h

lemma explained_tokenize (s : List Char) : Explained s (tokenize s) :=
  (tokenizeFrom_drawnFrom 0 1 (List.Subset.refl s)).2

end

/-! ### The grammar -/

section

variable (source : List Char)

/-- A token of a source, corresponding to itself. -/
def SameDrawn (t u : Located) : Prop :=
  t = u ∧ DrawnFrom source t.token.display

/-- A failure drawn from a source, alike to itself. -/
def SameReason (e f : SyntaxError) : Prop :=
  e = f ∧ DrawnFrom source e.reason

end

section

variable {source : List Char}

lemma forall₂_sameDrawn {tokens : List Located} (h : TokensDrawnFrom source tokens) :
    List.Forall₂ (SameDrawn source) tokens tokens :=
  List.forall₂_same.2 fun t ht => ⟨rfl, h t ht⟩

lemma eq_of_forall₂_sameDrawn {ts us : List Located} (h : List.Forall₂ (SameDrawn source) ts us) :
    ts = us ∧ TokensDrawnFrom source ts := by
  induction h with
  | nil => exact ⟨rfl, fun t ht => (by cases ht)⟩
  | cons htu _ ih =>
    obtain ⟨rfl, ht⟩ := htu
    exact ⟨by rw [ih.1], List.forall_mem_cons.2 ⟨ht, ih.2⟩⟩

lemma Cursor.eq_of_sameDrawn {c d : Cursor} (h : c.Alike (SameDrawn source) d) :
    c = d ∧ TokensDrawnFrom source c.rest := by
  obtain ⟨previous, rest⟩ := c
  obtain ⟨previous', rest'⟩ := d
  obtain ⟨rfl, hrest⟩ := h
  obtain ⟨rfl, hdrawn⟩ := eq_of_forall₂_sameDrawn hrest
  exact ⟨rfl, hdrawn⟩

lemma drawnFrom_expectation {sought : Expectation} (h : sought.Fixed) :
    DrawnFrom source sought.text := by
  match sought with
  | .token (.keyword k) => exact .append (.fixed (by decide)) (drawnFrom_keyword k)
  | .token (.symbol y) => exact .append (.fixed (by decide)) (drawnFrom_symbol y)
  | .token (.number _) | .token (.string _) | .token (.name _) => exact h.elim
  | .name role =>
    refine .append (.fixed (by decide)) (.fixed ?_)
    simp only [Expectation.Fixed, List.mem_cons, List.not_mem_nil, or_false] at h
    rcases h with rfl | rfl | rfl | rfl <;> decide
  | .expression | .endOfInput | .noOpenBlock => exact .fixed (by decide)

lemma drawnFrom_unexpected {c : Cursor} {sought : Expectation}
    (h : TokensDrawnFrom source c.rest) (hs : sought.Fixed) :
    DrawnFrom source (c.unexpected sought).reason := by
  obtain ⟨previous, rest⟩ := c
  cases rest with
  | nil => exact drawnFrom_atLine (.append (.fixed (by decide)) (drawnFrom_expectation hs))
  | cons t rest =>
    exact drawnFrom_atLine (.append (.append (.append (.fixed (by decide)) (h t List.mem_cons_self))
      (.fixed (by decide))) (drawnFrom_expectation hs))

/-- The grammar fails with what it was handed, if its literals do. -/
lemma faithful_sameDrawn {literal : LiteralReader}
    (hliteral : ∀ raw line, DrawnFrom source raw → Explained source (literal raw line)) :
    Faithful (SameDrawn source) (SameReason source) literal where
  line h := congrArg Located.line h.1
  token h := .inl (congrArg Located.token h.1)
  unexpected h hs := by
    obtain ⟨rfl, hdrawn⟩ := Cursor.eq_of_sameDrawn h
    exact ⟨rfl, drawnFrom_unexpected hdrawn hs⟩
  block opened line := ⟨rfl, drawnFrom_atLine (.append (.fixed (by decide)) (drawnFrom_toString _))⟩
  target line := ⟨rfl, drawnFrom_atLine (.fixed (by decide))⟩
  literal {t u raw line e} h ht he := by
    have hdisplay := h.2
    rw [ht] at hdisplay
    exact ⟨rfl, hliteral raw line hdisplay.of_append_left.of_append_right e he⟩

lemma Explained.of_sameOutcome {α : Type} {x : Except SyntaxError α}
    (h : SameOutcome (SameReason source) x x) : Explained source x := by
  rintro e rfl
  exact h.2

lemma Explained.bind {α β : Type} {x : Except SyntaxError α} {f : α → Except SyntaxError β}
    (hx : Explained source x) (hf : ∀ a, x = .ok a → Explained source (f a)) :
    Explained source (x >>= f) := by
  intro e he
  cases x with
  | error e' =>
    cases he
    exact hx e rfl
  | ok a => exact hf a rfl e he

lemma Explained.ok {α : Type} (a : α) : Explained source (.ok a) := fun e he => (by cases he)

/-- A failure drawn from a piece is drawn from the whole. -/
lemma Explained.trans {α : Type} {inner : List Char} {x : Except SyntaxError α}
    (h : Explained inner x) (hinner : DrawnFrom source (.ofList inner)) : Explained source x :=
  fun e he => (h e he).trans hinner

/-- A source is cut into tokens, and these are read. -/
lemma Explained.read {α : Type} {read : List Located → Except SyntaxError α}
    (h : ∀ tokens, TokensDrawnFrom source tokens → Explained source (read tokens)) :
    Explained source (tokenize source >>= read) :=
  (explained_tokenize source).bind fun tokens ht => h tokens (tokenize_drawnFrom ht)

lemma faithful_plainLiteral (source : List Char) :
    Faithful (SameDrawn source) (SameReason source) plainLiteral :=
  faithful_sameDrawn fun _ _ _ => .ok _

lemma explained_interpolated (s : List Char) :
    Explained s (tokenize s >>= expressionOf plainLiteral) :=
  .read fun _ ht => .of_sameOutcome
    (sameOutcome_expressionOf (faithful_plainLiteral s) (forall₂_sameDrawn ht))

lemma explained_parseArguments (s : List Char) : Explained s (parseArguments s) :=
  .read fun _ ht => .of_sameOutcome
    (sameOutcome_argumentsOf (faithful_plainLiteral s) (forall₂_sameDrawn ht))

/-! ### Literals with expressions -/

/-- The code in the braces of a literal is a piece of it. -/
lemma subset_of_mem_segments {s inside : List Char} (h : .code inside ∈ segments s) :
    inside ⊆ s := by
  have hcons : ∀ {c : Char} {t : List Char}, inside ⊆ t → inside ⊆ c :: t :=
    fun hsub => List.Subset.trans hsub (List.subset_cons_self _ _)
  induction s using segments.induct with
  | case1 => simp [segments] at h
  | case2 rest ih | case3 rest ih =>
    rw [segments] at h
    exact hcons (hcons (ih (by simpa using h)))
  | case4 c rest hopen hclose ih =>
    rw [segments] at h
    · exact hcons (hcons (ih (by simpa using h)))
    · exact hopen
    · exact hclose
  | case5 rest hcut =>
    rw [segments_brace, hcut] at h
    simp at h
  | case6 rest _ _ hcut hnested =>
    rw [segments_brace, hcut] at h
    dsimp only at h
    rw [if_pos hnested] at h
    simp at h
  | case7 rest _ rest' hcut hnested hblank ih =>
    rw [segments_brace, hcut] at h
    dsimp only at h
    rw [if_neg hnested, if_pos hblank] at h
    have hrest : inside ⊆ rest' := ih (by simpa using h)
    rw [cut_eq_some hcut]
    exact hcons fun c hc => List.mem_append_right _ (hrest hc)
  | case8 rest code rest' hcut hnested hblank ih =>
    rw [segments_brace, hcut] at h
    dsimp only at h
    rw [if_neg hnested, if_neg hblank] at h
    have hor : inside = code ∨ .code inside ∈ segments rest' := by simpa using h
    rw [cut_eq_some hcut]
    rcases hor with rfl | h
    · exact hcons fun c hc => List.mem_append_left _ (List.mem_append_left _ hc)
    · exact hcons fun c hc => List.mem_append_right _ (ih h hc)
  | case9 c rest h₁ h₂ h₃ h₄ ih =>
    rw [segments] at h
    · exact hcons (ih (by simpa using h))
    · exact h₁
    · exact h₂
    · exact h₃
    · exact h₄

lemma explained_templateParts (line : Nat) (pending : List Char) (parts : List Segment)
    (h : ∀ code, .code code ∈ parts → code ⊆ source) :
    Explained source (templateParts line pending parts) := by
  induction parts generalizing pending with
  | nil => exact .ok _
  | cons part rest ih =>
    have hrest : ∀ code, .code code ∈ rest → code ⊆ source :=
      fun code hmem => h code (List.mem_cons_of_mem _ hmem)
    match part with
    | .text raw =>
      rw [templateParts]
      exact ih _ hrest
    | .nested =>
      rw [templateParts]
      rintro e ⟨⟩
      exact drawnFrom_atLine (.fixed (by decide))
    | .code code =>
      have hcode : DrawnFrom source (.ofList code) := .piece (h code List.mem_cons_self)
      rw [templateParts]
      split
      · next cause hcause =>
        rintro e ⟨⟩
        have hreason : DrawnFrom source cause.reason :=
          (explained_interpolated code cause hcause).trans hcode
        exact drawnFrom_atLine (.append (.append (.append (.fixed (by decide)) hcode)
          (.fixed (by decide))) hreason)
      · exact (ih [] hrest).bind fun parts _ => .ok _

lemma explained_templateLiteral {raw : String} (line : Nat) (h : DrawnFrom source raw) :
    Explained source (templateLiteral raw line) := by
  have hraw : Explained raw.toList (templateLiteral raw line) := by
    refine (explained_templateParts line [] _ fun code => subset_of_mem_segments).bind
      fun parts _ => ?_
    split <;> exact .ok _
  exact hraw.trans (by rwa [String.ofList_toList])

lemma explained_parseProgram (s : List Char) : Explained s (parseProgram s true) :=
  .read fun _ ht => .of_sameOutcome (sameOutcome_programOf
    (faithful_sameDrawn fun _ line hraw => explained_templateLiteral line hraw)
    (forall₂_sameDrawn ht))

/-! ### The short dialects -/

lemma splitWord_subset (line : List Char) : (splitWord line).2 ⊆ line :=
  List.Subset.trans (trim_subset _) (List.dropWhile_suffix _).subset

lemma explained_commandOf (n : Nat) (line : List Char) : Explained line (commandOf n line) := by
  have hrest : (splitWord (trim line)).2 ⊆ line :=
    List.Subset.trans (splitWord_subset _) (trim_subset line)
  unfold commandOf
  generalize splitWord (trim line) = parts at hrest ⊢
  obtain ⟨word, rest⟩ := parts
  dsimp only
  split_ifs
  · rintro e ⟨⟩
    exact drawnFrom_atLine (.fixed (by decide))
  · exact .ok _
  · rintro e ⟨⟩
    exact drawnFrom_atLine (.fixed (by decide))
  · exact .ok _
  · split
    · exact .ok _
    · next cause hcause =>
      rintro e ⟨⟩
      have hreason : DrawnFrom line cause.reason :=
        (explained_parseArguments rest cause hcause).trans (.piece hrest)
      exact (((DrawnFrom.fixed (by decide)).append (drawnFrom_toString n)).append
        (.fixed (by decide))).append hreason
  · exact .ok _

lemma explained_commandsFrom (n : Nat) (ls : List (List Char)) (h : ∀ l ∈ ls, l ⊆ source) :
    Explained source (commandsFrom n ls) := by
  induction ls generalizing n with
  | nil => exact .ok _
  | cons line rest ih =>
    obtain ⟨hline, hrest⟩ := List.forall_mem_cons.1 h
    exact ((explained_commandOf n line).trans (.piece hline)).bind fun here _ =>
      (ih (n + 1) hrest).bind fun rest _ => .ok _

lemma explained_commands (s : List Char) : Explained s (commands s) :=
  explained_commandsFrom 1 _ fun _ => subset_of_mem_lines

lemma subset_of_argumentText? {inKey : Bool} {s text : List Char}
    (h : argumentText? inKey s = some text) : text ⊆ s := by
  induction s generalizing inKey with
  | nil => cases h
  | cons c s ih =>
    rw [argumentText?] at h
    split_ifs at h
    · cases h
      exact List.Subset.trans (trim_subset s) (List.subset_cons_self c s)
    · exact List.Subset.trans (ih h) (List.subset_cons_self c s)

lemma explained_blockArguments {name : List Char} (hname : name ⊆ source) (ls : List (List Char))
    (h : ∀ l ∈ ls, l ⊆ source) : Explained source (blockArguments name ls) := by
  induction ls with
  | nil => exact .ok _
  | cons line rest ih =>
    obtain ⟨hline, hrest⟩ := List.forall_mem_cons.1 h
    rw [blockArguments]
    split
    · exact ih hrest
    · next text htext =>
      have hsub : text ⊆ source :=
        fun d hd => hline (trim_subset line (subset_of_argumentText? htext hd))
      split
      · next cause hcause =>
        rintro e ⟨⟩
        have hreason : DrawnFrom source cause.reason :=
          (explained_parseArguments text cause hcause).trans (.piece hsub)
        exact (((DrawnFrom.fixed (by decide)).append (.piece hname)).append
          (.fixed (by decide))).append hreason
      · exact (ih hrest).bind fun args _ => .ok _

/-- A name in quotes is read off the beginning of the text. -/
lemma quotedName_eq_append {quote : Char} {s name rest : List Char}
    (h : quotedName quote s = some (name, rest)) : s = quote :: name ++ quote :: rest := by
  simp only [quotedName, bind, Option.bind_eq_some_iff] at h
  obtain ⟨t, ht, hcut⟩ := h
  rw [after?_eq_some_iff.1 ht, cut_eq_some hcut]
  simp

/-- A block of a task lies in the text, and its name and its body in the block. -/
lemma taskBlock_eq_append {s name body rest : List Char}
    (h : taskBlock s = some ((name, body), rest)) :
    ∃ lexeme, lexeme ≠ [] ∧ s = lexeme ++ rest ∧ name ⊆ lexeme ∧ body ⊆ lexeme := by
  unfold taskBlock at h
  obtain ⟨t, ht, h⟩ := Option.bind_eq_some_iff.1 h
  obtain ⟨-, -, h⟩ := Option.bind_eq_some_iff.1 h
  obtain ⟨⟨name, u⟩, hname, h⟩ := Option.bind_eq_some_iff.1 h
  obtain ⟨v, hv, h⟩ := Option.bind_eq_some_iff.1 h
  obtain ⟨⟨body, rest⟩, hcut, h⟩ := Option.bind_eq_some_iff.1 h
  cases h
  have hs := after?_eq_some_iff.1 ht
  obtain ⟨gap, ht⟩ : ∃ gap, t = gap ++ t.dropWhile isSpace := ⟨_, eq_append_dropWhile isSpace t⟩
  obtain ⟨quote, hquote⟩ : ∃ quote, t.dropWhile isSpace = quote :: name ++ quote :: u := by
    cases hdouble : quotedName '"' (t.dropWhile isSpace) with
    | some found =>
      rw [hdouble] at hname
      cases hname
      exact ⟨_, quotedName_eq_append hdouble⟩
    | none =>
      rw [hdouble] at hname
      exact ⟨_, quotedName_eq_append hname⟩
  obtain ⟨gap', hu⟩ : ∃ gap, u = gap ++ u.dropWhile isSpace := ⟨_, eq_append_dropWhile isSpace u⟩
  rw [hquote] at ht
  rw [after?_eq_some_iff.1 hv, cut_eq_some hcut] at hu
  refine ⟨"task".toList ++ gap ++ quote :: name ++ quote :: gap' ++ ['{'] ++ body ++ ['}'],
    by simp, ?_, ?_, ?_⟩
  · rw [hs, ht, hu]
    simp
  · intro c hc
    simp [hc]
  · intro c hc
    simp [hc]

lemma advances_taskBlock : Pattern.Advances taskBlock := by
  rintro s ⟨name, body⟩ rest h
  obtain ⟨lexeme, hne, he, -, -⟩ := taskBlock_eq_append h
  exact ⟨lexeme, hne, he⟩

lemma explained_taskCall {name body : List Char} (hname : name ⊆ source) (hbody : body ⊆ source) :
    Explained source (taskCall name body) :=
  (explained_blockArguments hname _ fun _ hl =>
    List.Subset.trans (subset_of_mem_lines hl) hbody).bind fun _ _ => .ok _

lemma Explained.mapM {α β : Type} {f : α → Except SyntaxError β} (as : List α)
    (h : ∀ a ∈ as, Explained source (f a)) : Explained source (as.mapM f) := by
  induction as with
  | nil => exact .ok _
  | cons a as ih =>
    obtain ⟨ha, has⟩ := List.forall_mem_cons.1 h
    rw [List.mapM_cons]
    exact ha.bind fun b _ => (ih has).bind fun bs _ => .ok _

lemma explained_taskBlocks (s : List Char) : Explained s (taskBlocks s) := by
  refine .mapM _ fun (name, body) hmem => ?_
  obtain ⟨lexeme, rest, ht, hread⟩ := mem_finds advances_taskBlock hmem
  obtain ⟨lexeme', -, he, hname, hbody⟩ := taskBlock_eq_append hread
  have hsub : lexeme' ⊆ s := fun c hc => ht.subset (he ▸ List.mem_append_left rest hc)
  exact explained_taskCall (List.Subset.trans hname hsub) (List.Subset.trans hbody hsub)

lemma explained_programIn (tier : Tier) (s : List Char) : Explained s (programIn tier s) := by
  cases tier with
  | taskDefinition => exact explained_taskBlocks s
  | simpleCommand => exact explained_commands s
  | advanced => exact explained_parseProgram s

/-! ### Misplaced control flow -/

lemma Explained.guard {c : Prop} [Decidable c] {x : Except SyntaxError Unit} {e : SyntaxError}
    (hx : Explained source x) (he : DrawnFrom source e.reason) :
    Explained source (if c then x else .error e) := by
  split_ifs
  · exact hx
  · rintro e' ⟨⟩
    exact he

mutual

lemma explained_placedExpr : ∀ e : Expr, Explained source (placedExpr e)
  | .lambda code => explained_placedFunction code
  | .template parts => explained_placedParts parts
  | .array items => explained_placedExprs items
  | .unary _ operand => explained_placedExpr operand
  | .binary _ left right => (explained_placedExpr left).bind fun _ _ => explained_placedExpr right
  | .call callee args => (explained_placedExpr callee).bind fun _ _ => explained_placedExprs args
  | .member object _ => explained_placedExpr object
  | .index object index => (explained_placedExpr object).bind fun _ _ => explained_placedExpr index
  | .number _ | .str _ | .bool _ | .nil | .ident _ => .ok ()

lemma explained_placedExprs : ∀ es : List Expr, Explained source (placedExprs es)
  | [] => .ok ()
  | e :: rest => (explained_placedExpr e).bind fun _ _ => explained_placedExprs rest

lemma explained_placedParts : ∀ parts : List TemplatePart, Explained source (placedParts parts)
  | [] => .ok ()
  | part :: rest => (explained_placedPart part).bind fun _ _ => explained_placedParts rest

lemma explained_placedPart : ∀ part : TemplatePart, Explained source (placedPart part)
  | .text _ => .ok ()
  | .expr e => explained_placedExpr e

lemma explained_placedFunction : ∀ code : Function, Explained source (placedFunction code)
  | .mk _ _ body => explained_placedStmts .function body

lemma explained_placedStmt (p : Place) : ∀ s : Stmt, Explained source (placedStmt p s)
  | .declare _ _ none => .ok ()
  | .declare _ _ (some e) => explained_placedExpr e
  | .assign target value =>
    (explained_placedExpr target).bind fun _ _ => explained_placedExpr value
  | .expr e => explained_placedExpr e
  | .throw e => explained_placedExpr e
  | .cond branches none => explained_placedBranches p branches
  | .cond branches (some body) =>
    (explained_placedBranches p branches).bind fun _ _ => explained_placedStmts p body
  | .forRange _ start stop body =>
    (explained_placedExpr start).bind fun _ _ =>
      (explained_placedExpr stop).bind fun _ _ => explained_placedStmts p.loop body
  | .forEach _ items body =>
    (explained_placedExpr items).bind fun _ _ => explained_placedStmts p.loop body
  | .while condition body =>
    (explained_placedExpr condition).bind fun _ _ => explained_placedStmts p.loop body
  | .try body handler =>
    (explained_placedStmts p body).bind fun _ _ => explained_placedStmts p handler
  | .function code => explained_placedFunction code
  | .return none => .guard (.ok ()) (.fixed (by decide))
  | .return (some e) => .guard (explained_placedExpr e) (.fixed (by decide))
  | .break => .guard (.ok ()) (.fixed (by decide))
  | .continue => .guard (.ok ()) (.fixed (by decide))

lemma explained_placedStmts (p : Place) : ∀ ss : List Stmt, Explained source (placedStmts p ss)
  | [] => .ok ()
  | s :: rest => (explained_placedStmt p s).bind fun _ _ => explained_placedStmts p rest

lemma explained_placedBranches (p : Place) :
    ∀ branches : List Branch, Explained source (placedBranches p branches)
  | [] => .ok ()
  | branch :: rest =>
    (explained_placedBranch p branch).bind fun _ _ => explained_placedBranches p rest

lemma explained_placedBranch (p : Place) :
    ∀ branch : Branch, Explained source (placedBranch p branch)
  | .mk condition body =>
    (explained_placedExpr condition).bind fun _ _ => explained_placedStmts p body

end

/-! ### Compiling -/

lemma stripLine_subset (state : Scanning) (l : List Char) : stripLine state l ⊆ l := by
  induction l generalizing state with
  | nil => exact List.Subset.refl _
  | cons c l ih =>
    unfold stripLine
    split
    · exact List.nil_subset _
    · exact List.cons_subset_cons c (ih _)

lemma drawnFrom_stripComments (source : List Char) :
    DrawnFrom source (.ofList (stripComments source)) := by
  refine .ofList fun c hc => ?_
  rcases mem_of_mem_intercalate hc with hc | ⟨l, hl, hc⟩
  · rw [List.mem_singleton.1 hc]
    exact .inr (by decide)
  · obtain ⟨line, hline, rfl⟩ := List.mem_map.1 hl
    exact .inl (subset_of_mem_lines hline (stripLine_subset _ _ hc))

/-- **A message quotes the source and says the rest in ordinary characters.** -/
theorem compile_drawnFrom {s : List Char} {e : SyntaxError} (h : compile s = .error e) :
    DrawnFrom s e.message := by
  have hcompile : Explained s (compile s) :=
    ((explained_programIn _ _).bind fun program _ =>
      (explained_placedStmts _ program).bind fun _ _ => .ok _).trans (drawnFrom_stripComments s)
  exact .append (.fixed (by decide)) (hcompile e h)

end

end ScriptedNotes.Script
