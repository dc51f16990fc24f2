import ScriptedNotes.Proofs.Script.NumberedEscapes
import ScriptedNotes.Proofs.Script.TokenLines

/-!
How tokens cover their source. The text of a token is that token when it stands alone
(`lexeme?_self`), and no longer beginning of the text there is a token (`lexeme?_longest`). So a
source that can be cut is made of the texts of its tokens, in order, and of blanks and comments
around them (`tokens_cover_source`).
-/

namespace ScriptedNotes.Script

open Text

/-! ### Numbers -/

/-- Digits with a fraction behind them, if there is one. -/
def numeral (units places : List Char) : List Char :=
  if places = [] then units else units ++ '.' :: places

section Numbers

variable {s units places rest : List Char}

lemma numberParts_eq (h : numberParts s = (units, places, rest)) :
    s = numeral units places ++ rest ∧ (∀ c ∈ units, c.isDigit = true) ∧
      ∀ c ∈ places, c.isDigit = true := by
  have hs := eq_append_dropWhile Char.isDigit s
  have hunits : ∀ c ∈ s.takeWhile Char.isDigit, c.isDigit = true :=
    fun c hc => List.mem_takeWhile_imp hc
  unfold numberParts at h
  dsimp only at h
  split at h
  · next behind hbehind =>
    rw [hbehind] at hs
    split_ifs at h with hplaces
    · cases h
      exact ⟨hs, hunits, List.forall_mem_nil _⟩
    · cases h
      have hne : behind.takeWhile Char.isDigit ≠ [] := fun hnil => hplaces (by rw [hnil]; rfl)
      refine ⟨?_, hunits, fun c hc => List.mem_takeWhile_imp hc⟩
      rw [numeral, if_neg hne, List.append_assoc, List.cons_append,
        List.takeWhile_append_dropWhile]
      exact hs
  · cases h
    exact ⟨hs, hunits, List.forall_mem_nil _⟩

lemma takeWhile_digits (h : ∀ c ∈ units, c.isDigit = true) (s : List Char) :
    (units ++ s).takeWhile Char.isDigit = units ++ s.takeWhile Char.isDigit :=
  List.takeWhile_append_of_pos h

lemma dropWhile_digits (h : ∀ c ∈ units, c.isDigit = true) (s : List Char) :
    (units ++ s).dropWhile Char.isDigit = s.dropWhile Char.isDigit :=
  List.dropWhile_append_of_pos h

lemma length_numberParts_le (s : List Char) :
    (numberParts s).2.2.length ≤ (s.dropWhile Char.isDigit).length := by
  unfold numberParts
  dsimp only
  split
  · next behind hbehind =>
    have hdrop := (List.dropWhile_suffix (l := behind) Char.isDigit).length_le
    rw [hbehind]
    split
    · rfl
    · exact hdrop.trans (Nat.le_succ _)
  · rfl

variable (hunits : ∀ c ∈ units, c.isDigit = true) (hplaces : ∀ c ∈ places, c.isDigit = true)
include hunits hplaces

/-- A fraction is read as far as its digits go. -/
lemma numberParts_fraction (hne : places ≠ []) (s : List Char) :
    numberParts (units ++ '.' :: (places ++ s)) =
      (units, places ++ s.takeWhile Char.isDigit, s.dropWhile Char.isDigit) := by
  have htake : (units ++ '.' :: (places ++ s)).takeWhile Char.isDigit = units := by
    rw [takeWhile_digits hunits, List.takeWhile_cons, if_neg (by decide), List.append_nil]
  have hdrop : (units ++ '.' :: (places ++ s)).dropWhile Char.isDigit = '.' :: (places ++ s) := by
    rw [dropWhile_digits hunits, List.dropWhile_cons, if_neg (by decide)]
  unfold numberParts
  rw [htake, hdrop]
  simp only [takeWhile_digits hplaces, dropWhile_digits hplaces]
  rw [if_neg]
  simp [hne]

lemma numberParts_numeral : numberParts (numeral units places) = (units, places, []) := by
  unfold numeral
  split_ifs with hne
  · have htake := takeWhile_digits hunits []
    have hdrop := dropWhile_digits hunits []
    simp only [List.append_nil, List.takeWhile_nil, List.dropWhile_nil] at htake hdrop
    unfold numberParts
    rw [htake, hdrop, hne]
  · have hfraction := numberParts_fraction hunits hplaces hne []
    simpa using hfraction

lemma length_numberParts_numeral (s : List Char) :
    (numberParts (numeral units places ++ s)).2.2.length ≤ s.length := by
  unfold numeral
  split_ifs with hne
  · have hle := length_numberParts_le (units ++ s)
    rw [dropWhile_digits hunits] at hle
    exact hle.trans (List.dropWhile_suffix _).length_le
  · rw [List.append_assoc, List.cons_append, numberParts_fraction hunits hplaces hne]
    exact (List.dropWhile_suffix _).length_le

end Numbers

/-! ### Symbols -/

section Symbols

variable {s w more rest : List Char} {y z : Symbol}

lemma after?_append_of_some {pattern : List Char} (h : after? pattern s = some rest)
    (t : List Char) : after? pattern (s ++ t) = some (rest ++ t) := by
  rw [after?_eq_some_iff] at h ⊢
  rw [h, List.append_assoc]

/-- A symbol is read off its own text. -/
lemma symbol?_self (h : symbol? (w ++ rest) = some (y, rest)) : symbol? w = some (y, []) := by
  obtain ⟨earlier, ⟨spelling, y'⟩, later, htable, hfound, hnone⟩ := List.findSome?_eq_some_iff.1 h
  obtain ⟨rest', hafter, he⟩ := Option.map_eq_some_iff.1 hfound
  cases he
  obtain rfl : w = spelling := List.append_cancel_right (after?_eq_some_iff.1 hafter)
  refine List.findSome?_eq_some_iff.2 ⟨earlier, (w, y), later, htable, ?_, fun e he => ?_⟩
  · show (after? w w).map _ = _
    rw [after?_eq_some_iff.2 (List.append_nil w).symm]
    rfl
  · have hne := hnone e he
    rw [Option.map_eq_none_iff] at hne ⊢
    by_contra hsome
    obtain ⟨behind, hbehind⟩ := Option.ne_none_iff_exists'.1 hsome
    rw [after?_append_of_some hbehind] at hne
    cases hne

/-- No spelling stands before one that begins with it. -/
lemma symbolTable_pairwise : symbolTable.Pairwise fun e later => ¬ e.1 <+: later.1 := by
  decide +kernel

/-- Of the symbols that a text begins with the longest is read. -/
lemma length_symbol? (hw : (w, y) ∈ symbolTable) (h : symbol? (w ++ more) = some (z, rest)) :
    rest.length ≤ more.length := by
  obtain ⟨earlier, ⟨spelling, z'⟩, later, htable, hfound, hnone⟩ := List.findSome?_eq_some_iff.1 h
  obtain ⟨rest', hafter, he⟩ := Option.map_eq_some_iff.1 hfound
  cases he
  have htext := after?_eq_some_iff.1 hafter
  have hprefix : w <+: spelling := by
    rw [htable, List.mem_append, List.mem_cons] at hw
    rcases hw with hw | hw | hw
    · have hnot := hnone _ hw
      rw [Option.map_eq_none_iff, after?_eq_some_iff.2 rfl] at hnot
      cases hnot
    · cases hw
      exact List.prefix_refl _
    · have hpairwise := symbolTable_pairwise
      rw [htable, List.pairwise_append] at hpairwise
      have hnot := (List.pairwise_cons.1 hpairwise.2.1).1 _ hw
      have hspelling : spelling <+: w ++ more := ⟨rest, htext.symm⟩
      have hw := List.prefix_append w more
      exact (List.prefix_or_prefix_of_prefix hspelling hw).resolve_left hnot
  have hlength := congrArg List.length htext
  have hle := hprefix.length_le
  simp only [List.length_append] at hlength
  omega

end Symbols

/-! ### Tokens by themselves -/

section Alone

variable {c : Char} {w s more rest : List Char} {t : Token}

lemma opensComment_of_append (h : opensComment (c :: (w ++ rest)) = false) :
    opensComment (c :: w) = false := by
  cases w with
  | nil => rfl
  | cons d w => exact h

/-- **The text of a token is that token by itself.** -/
theorem lexeme?_self (hw : w ≠ []) (h : lexeme? (w ++ rest) = some (.token t, rest)) :
    lexeme? w = some (.token t, []) := by
  obtain ⟨c, w, rfl⟩ := List.exists_cons_of_ne_nil hw
  have hopen := not_opensComment_of_token h
  rw [List.cons_append] at h hopen
  rw [lexeme?_cons hopen] at h
  rw [lexeme?_cons (opensComment_of_append hopen)]
  unfold plainLexeme? at h ⊢
  split_ifs at h ⊢ with hgap hname hdigit hquote
  · cases h
  · obtain ⟨htoken, hrest⟩ := Prod.mk.inj (Option.some.inj h)
    have htake : (c :: (w ++ rest)).takeWhile isWord = c :: w := by
      have hall := eq_append_dropWhile isWord (c :: (w ++ rest))
      rw [hrest] at hall
      exact (List.append_cancel_right hall).symm
    have hall : ∀ d ∈ c :: w, isWord d = true := by
      intro d hd
      rw [← htake] at hd
      exact List.mem_takeWhile_imp hd
    rw [htake] at htoken
    rw [List.takeWhile_eq_self_iff.2 hall, List.dropWhile_eq_nil_iff.2 hall, htoken]
  · rcases hparts : numberParts (c :: (w ++ rest)) with ⟨units, places, rest'⟩
    rw [hparts] at h
    cases h
    obtain ⟨hnumeral, hunits, hplaces⟩ := numberParts_eq hparts
    obtain hself : c :: w = numeral units places := List.append_cancel_right hnumeral
    rw [hself, numberParts_numeral hunits hplaces]
  · obtain ⟨⟨raw, rest'⟩, hr, he⟩ := Option.map_eq_some_iff.1 h
    cases he
    have hc : c ≠ '\\' := by rcases hquote with rfl | rfl <;> decide
    have htext := stringRest_eq_append hr
    rw [← List.singleton_append, ← List.append_assoc] at htext
    obtain rfl : w = raw ++ [c] := List.append_cancel_right htext
    rw [(stringRest_self hc hr).1]
    rfl
  · obtain ⟨⟨y, rest'⟩, hr, he⟩ := Option.map_eq_some_iff.1 h
    cases he
    rw [symbol?_self (w := c :: w) hr]
    rfl

/-- **Nothing longer is read over a token**: where a text is a token, what is read off it with more
behind it goes at least as far. -/
theorem lexeme?_longest {x : Lexeme} (h : lexeme? s = some (.token t, []))
    (hmore : lexeme? (s ++ more) = some (x, rest)) : rest.length ≤ more.length := by
  have hdrop : ∀ p : Char → Bool, (more.dropWhile p).length ≤ more.length :=
    fun p => (List.dropWhile_suffix p).length_le
  match s with
  | [] => cases h
  | c :: s =>
    have hopen := not_opensComment_of_token h
    rw [lexeme?_cons hopen] at h
    by_cases hcomment : opensComment (c :: (s ++ more)) = true
    · -- the sign of the token is the first of the two that begin the comment
      rw [List.cons_append, lexeme?_comment hcomment] at hmore
      match s, more with
      | d :: s, _ => cases hopen.symm.trans hcomment
      | [], [] => cases hcomment
      | [], d :: more =>
        cases hmore
        simp only [List.nil_append, opensComment, Bool.and_eq_true, Bool.or_eq_true,
          beq_iff_eq] at hcomment
        have hc : c ≠ '\n' := by rcases hcomment.1 with rfl | rfl <;> decide
        rw [List.nil_append, List.dropWhile_cons, if_pos (by simpa using hc)]
        exact hdrop _
    rw [List.cons_append, lexeme?_cons (by simpa using hcomment)] at hmore
    unfold plainLexeme? at h hmore
    split_ifs at h hmore with hgap hname hdigit hquote
    · cases h
    · have hword : ∀ d ∈ c :: s, isWord d = true := by
        injection h with h
        exact List.dropWhile_eq_nil_iff.1 (congrArg Prod.snd h)
      cases hmore
      rw [← List.cons_append, List.dropWhile_append_of_pos hword]
      exact hdrop _
    · rcases hparts : numberParts (c :: s) with ⟨units, places, rest'⟩
      rw [hparts] at h
      cases h
      obtain ⟨hnumeral, hunits, hplaces⟩ := numberParts_eq hparts
      have hle := length_numberParts_numeral hunits hplaces more
      rw [List.append_nil] at hnumeral
      rw [← hnumeral, List.cons_append] at hle
      cases hmore
      exact hle
    · obtain ⟨⟨raw, rest'⟩, hr, he⟩ := Option.map_eq_some_iff.1 h
      cases he
      have hc : c ≠ '\\' := by rcases hquote with rfl | rfl <;> decide
      rw [stringRest_append hc more hr] at hmore
      cases hmore
      exact le_refl _
    · obtain ⟨⟨y, rest'⟩, hr, he⟩ := Option.map_eq_some_iff.1 h
      cases he
      obtain ⟨⟨z, rest'⟩, hr', he⟩ := Option.map_eq_some_iff.1 hmore
      cases he
      obtain ⟨spelling, hmem, he⟩ := symbol?_eq_append hr
      rw [List.append_nil] at he
      rw [← he] at hmem
      exact length_symbol? hmem hr'

end Alone

/-! ### What stands between tokens -/

/-- Text without tokens in front of a rest: blanks, and comments, which go to the end of their
line. -/
inductive Skipped : List Char → List Char → Prop
  | nil (rest : List Char) : Skipped [] rest
  | blank {c : Char} {gap rest : List Char} : isGap c = true → Skipped gap rest →
    Skipped (c :: gap) rest
  | comment {w gap rest : List Char} : opensComment w = true → '\n' ∉ w →
    AtLineEnd (gap ++ rest) → Skipped gap rest → Skipped (w ++ gap) rest

/-- How a text that begins at a byte of a line is made of its tokens and of what is passed over. -/
inductive Covered : Nat → Nat → List Char → List Located → Prop
  | gap {pos line : Nat} {gap : List Char} : Skipped gap [] → Covered pos line gap []
  | token {pos line : Nat} {gap w rest : List Char} {t : Token} {tokens : List Located} :
    Skipped gap (w ++ rest) → w ≠ [] → lexeme? (w ++ rest) = some (.token t, rest) →
    Covered (pos + byteSize gap + byteSize w) (line + lineFeeds gap + lineFeeds w) rest tokens →
    Covered pos line (gap ++ (w ++ rest))
      (⟨t, pos + byteSize gap, pos + byteSize gap + byteSize w, line + lineFeeds gap⟩ :: tokens)

namespace Covered

variable {pos line : Nat} {s w : List Char} {tokens : List Located}

/-- Something that is passed over may stand in front. -/
lemma prepend (hskipped : ∀ gap rest, s = gap ++ rest → Skipped gap rest → Skipped (w ++ gap) rest)
    (h : Covered (pos + byteSize w) (line + lineFeeds w) s tokens) :
    Covered pos line (w ++ s) tokens := by
  generalize hpos : pos + byteSize w = pos' at h
  generalize hline : line + lineFeeds w = line' at h
  cases h with
  | gap hgap => exact .gap (hskipped s [] (List.append_nil s).symm hgap)
  | @token _ _ gap v rest t tokens hgap hv ht hrest =>
    subst hpos hline
    have hcovered := @Covered.token pos line (w ++ gap) v rest t tokens (hskipped gap _ rfl hgap)
      hv ht
    rw [byteSize_append, lineFeeds_append, ← Nat.add_assoc, ← Nat.add_assoc,
      List.append_assoc] at hcovered
    exact hcovered hrest

/-- **A text that can be cut is covered by its tokens.** -/
theorem of_tokenizeFrom (h : tokenizeFrom pos line s = .ok tokens) : Covered pos line s tokens := by
  induction s using lexing_induct generalizing pos line tokens with
  | nil =>
    rw [tokenizeFrom] at h
    cases h
    exact .gap (.nil _)
  | stuck c s hc =>
    rw [tokenizeFrom_stuck hc] at h
    cases h
  | blank c s hc ih =>
    rw [tokenizeFrom_blank hc] at h
    exact (ih h).prepend (w := [c]) fun gap rest _ hgap => .blank hc hgap
  | comment w rest hw hfeed hend ih =>
    rw [tokenizeFrom_comment hw hfeed hend] at h
    refine Covered.prepend (fun gap behind he hgap => .comment hw hfeed (he ▸ hend) hgap) ?_
    rw [lineFeeds_eq_zero hfeed]
    exact ih h
  | token t w rest hw ht ih =>
    rw [tokenizeFrom_token ht rfl] at h
    cases hrest : tokenizeFrom (pos + byteSize w) (line + lineFeeds w) rest with
    | error e =>
      rw [hrest] at h
      cases h
    | ok below =>
      rw [hrest] at h
      cases h
      exact .token (.nil _) hw ht (ih hrest)

end Covered

/-! ### Places -/

/-- A stretch of a source from one byte to another. -/
structure Slice (source : List Char) (start stop : Nat) where
  before : List Char
  text : List Char
  after : List Char
  source_eq : source = before ++ (text ++ after)
  start_eq : start = byteSize before
  stop_eq : stop = byteSize before + byteSize text

/-- The places in front of the first token, between each two that follow one another, and behind
the last. -/
def placesBetween (tokens : List Located) (size : Nat) : List (Nat × Nat) :=
  (0 :: tokens.map (·.stop)).zip (tokens.map (·.start) ++ [size])

/-- Whether a text is one token and nothing besides it. -/
def IsToken (t : Token) (text : List Char) : Prop :=
  tokenize text = .ok [⟨t, 0, byteSize text, 1⟩]

section Places

variable {source s w : List Char} {pos line start stop : Nat} {t : Token} {tokens : List Located}

lemma byteSize_pos (hs : s ≠ []) : 0 < byteSize s := by
  obtain ⟨c, s, rfl⟩ := List.exists_cons_of_ne_nil hs
  have hsize : byteSize (c :: s) = c.utf8Size + byteSize s := by
    rw [← List.singleton_append, byteSize_append, byteSize, List.foldl_cons, List.foldl_nil,
      Nat.zero_add]
  have hpos := c.utf8Size_pos
  omega

lemma eq_nil_of_byteSize (h : byteSize s = 0) : s = [] := by
  by_contra hs
  have hpos := byteSize_pos hs
  omega

lemma Slice.stop_le (here : Slice source start stop) : stop ≤ byteSize source := by
  have hstop := here.stop_eq
  rw [here.source_eq, byteSize_append, byteSize_append]
  omega

lemma Slice.start_lt (here : Slice source start stop) (h : here.text ≠ []) : start < stop := by
  have hstart := here.start_eq
  have hstop := here.stop_eq
  have hpos := byteSize_pos h
  omega

/-- A text is one token just when that token is read off it and leaves nothing. -/
lemma isToken_iff : IsToken t w ↔ lexeme? w = some (.token t, []) := by
  constructor
  · intro h
    have hcovered := Covered.of_tokenizeFrom h
    generalize ht : (⟨t, 0, byteSize w, 1⟩ : Located) = here at hcovered
    cases hcovered with
    | @token _ _ gap v rest u _ hgap hv hu _ =>
      rw [Located.mk.injEq, byteSize_append, byteSize_append] at ht
      obtain ⟨rfl, hstart, hstop, -⟩ := ht
      obtain rfl := eq_nil_of_byteSize (s := gap) (by omega)
      obtain rfl := eq_nil_of_byteSize (s := rest) (by omega)
      rw [List.append_nil] at hu
      rwa [List.nil_append, List.append_nil]
  · intro h
    rw [IsToken, tokenize, tokenizeFrom_token h (List.append_nil w).symm, tokenizeFrom,
      Nat.zero_add]
    rfl

lemma IsToken.ne_nil (h : IsToken t w) : w ≠ [] := by
  rintro rfl
  have hnone := isToken_iff.1 h
  cases hnone

namespace Covered

lemma le_start (h : Covered pos line s tokens) : ∀ t ∈ tokens, pos ≤ t.start := by
  induction h with
  | gap _ => exact List.forall_mem_nil _
  | token _ _ _ _ ih =>
    refine List.forall_mem_cons.2 ⟨Nat.le_add_right _ _, fun t ht => ?_⟩
    have hle := ih t ht
    omega

/-- No token begins before the one in front of it has ended. -/
lemma pairwise (h : Covered pos line s tokens) :
    tokens.Pairwise fun t u => t.stop ≤ u.start := by
  induction h with
  | gap _ => exact .nil
  | token _ _ _ hrest ih => exact .cons hrest.le_start ih

/-- Between the tokens there are blanks and comments only. -/
lemma skipped (h : Covered pos line s tokens) (before : List Char)
    (hsource : source = before ++ s) (hpos : pos = byteSize before) :
    ∀ place ∈ (pos :: tokens.map (·.stop)).zip (tokens.map (·.start) ++ [byteSize source]),
      ∃ between : Slice source place.1 place.2, Skipped between.text between.after := by
  induction h generalizing before with
  | @gap _ _ gap hgap =>
    intro place hplace
    obtain rfl : place = (_, byteSize source) := by simpa using hplace
    exact ⟨⟨before, gap, [], by rw [hsource, List.append_nil], hpos,
      by rw [hsource, byteSize_append]⟩, hgap⟩
  | @token pos line gap w rest t tokens hgap hw ht hrest ih =>
    intro place hplace
    rw [List.map_cons, List.map_cons, List.cons_append, List.zip_cons_cons] at hplace
    rcases List.mem_cons.1 hplace with rfl | hplace
    · exact ⟨⟨before, gap, w ++ rest, hsource, hpos, by rw [hpos]⟩, hgap⟩
    · refine ih (before ++ gap ++ w) ?_ ?_ place hplace
      · rw [hsource, List.append_assoc, List.append_assoc]
      · rw [byteSize_append, byteSize_append, hpos]

/-- Each token stands at its place and on its line, and is the longest one that could stand
there. -/
lemma tokens_at (h : Covered pos line s tokens) (before : List Char)
    (hsource : source = before ++ s) (hpos : pos = byteSize before)
    (hline : line = 1 + lineFeeds before) :
    ∀ t ∈ tokens, ∃ here : Slice source t.start t.stop,
      t.line = 1 + lineFeeds here.before ∧ IsToken t.token here.text ∧
        ∀ more rest u, here.after = more ++ rest → IsToken u (here.text ++ more) → more = [] := by
  induction h generalizing before with
  | gap _ => exact List.forall_mem_nil _
  | @token pos line gap w rest t tokens hgap hw ht hrest ih =>
    refine List.forall_mem_cons.2 ⟨?_, ih (before ++ gap ++ w) ?_ ?_ ?_⟩
    · have hplace : pos + byteSize gap = byteSize (before ++ gap) := by
        rw [byteSize_append, hpos]
      refine ⟨⟨before ++ gap, w, rest, by rw [hsource, List.append_assoc], hplace,
        by rw [hplace]⟩, ?_, isToken_iff.2 (lexeme?_self hw ht), ?_⟩
      · show line + lineFeeds gap = 1 + lineFeeds (before ++ gap)
        rw [lineFeeds_append, hline, Nat.add_assoc]
      · intro more behind u hmore hu
        replace hmore : rest = more ++ behind := hmore
        rw [hmore, ← List.append_assoc] at ht
        have hlength := lexeme?_longest (isToken_iff.1 hu) ht
        rw [List.length_append] at hlength
        exact List.eq_nil_of_length_eq_zero (by omega)
    · rw [hsource, List.append_assoc, List.append_assoc]
    · rw [byteSize_append, byteSize_append, hpos]
    · rw [lineFeeds_append, lineFeeds_append, hline]
      omega

end Covered

end Places

/-- **Tokens cover their source.** They follow one another without overlaps, each of them at bytes
of the source and not empty. Before, between and behind them stand blanks and comments only. Each
token bears the number of its line, its text is that token by itself, and no longer beginning of
what stands there is a token. -/
theorem tokens_cover_source {source : List Char} {tokens : List Located}
    (h : tokenize source = .ok tokens) :
    (tokens.Pairwise fun t u => t.stop ≤ u.start) ∧
      (∀ t ∈ tokens, t.start < t.stop ∧ t.stop ≤ byteSize source) ∧
      (∀ place ∈ placesBetween tokens (byteSize source),
        ∃ between : Slice source place.1 place.2, Skipped between.text between.after) ∧
      ∀ t ∈ tokens, ∃ here : Slice source t.start t.stop,
        t.line = 1 + lineFeeds here.before ∧ IsToken t.token here.text ∧
          ∀ more rest u, here.after = more ++ rest → IsToken u (here.text ++ more) →
            more = [] := by
  have hcovered : Covered 0 1 source tokens := .of_tokenizeFrom h
  have htokens := hcovered.tokens_at [] rfl rfl rfl
  refine ⟨hcovered.pairwise, fun t ht => ?_, hcovered.skipped [] rfl rfl, htokens⟩
  obtain ⟨here, -, hself, -⟩ := htokens t ht
  exact ⟨here.start_lt hself.ne_nil, here.stop_le⟩

/-- A name, a symbol of two signs and a string, with a comment between lines. -/
def threeTokens : List Char := "a ==-- b\n'c'".toList

theorem tokens_cover_source_threeTokens :
    tokenize threeTokens =
        .ok [⟨.name "a", 0, 1, 1⟩, ⟨.symbol .eq, 2, 4, 1⟩, ⟨.string "c", 9, 12, 2⟩] ∧
      (∀ place ∈ [(0, 0), (1, 2), (4, 9), (12, 12)],
        ∃ between : Slice threeTokens place.1 place.2, Skipped between.text between.after) ∧
      ∃ here : Slice threeTokens 9 12, 2 = 1 + lineFeeds here.before ∧
        IsToken (.string "c") here.text := by
  have hname : lexeme? threeTokens = some (.token (.name "a"), " ==-- b\n'c'".toList) := rfl
  have hsymbol : lexeme? "==-- b\n'c'".toList =
      some (.token (.symbol .eq), "-- b\n'c'".toList) := rfl
  have hstring : lexeme? "'c'".toList = some (.token (.string "c"), []) := rfl
  have htokens : tokenize threeTokens =
      .ok [⟨.name "a", 0, 1, 1⟩, ⟨.symbol .eq, 2, 4, 1⟩, ⟨.string "c", 9, 12, 2⟩] := by
    rw [tokenize, tokenizeFrom_token hname (show _ = ['a'] ++ _ from rfl)]
    show (tokenizeFrom 1 1 (' ' :: "==-- b\n'c'".toList)).map _ = _
    rw [tokenizeFrom_blank rfl, tokenizeFrom_token hsymbol (show _ = ['=', '='] ++ _ from rfl)]
    show ((tokenizeFrom 4 1 ("-- b".toList ++ "\n'c'".toList)).map _).map _ = _
    rw [tokenizeFrom_comment rfl (by decide) (by simp [AtLineEnd])]
    show ((tokenizeFrom 8 1 ('\n' :: "'c'".toList)).map _).map _ = _
    rw [tokenizeFrom_blank rfl, tokenizeFrom_token hstring (List.append_nil _).symm, tokenizeFrom]
    rfl
  obtain ⟨-, -, hbetween, hplaces⟩ := tokens_cover_source htokens
  obtain ⟨here, hline, hself, -⟩ := hplaces ⟨.string "c", 9, 12, 2⟩ (by simp)
  exact ⟨htokens, hbetween, here, hline, hself⟩

end ScriptedNotes.Script
