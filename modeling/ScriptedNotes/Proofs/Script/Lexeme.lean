import Mathlib.Tactic.Common
import Mathlib.Data.List.TakeWhile
import ScriptedNotes.Script.Lexer

/-!
Single lexemes. A lexeme is a beginning of the text that is not empty (`lexeme?_eq_append`), and it
does not see what stands behind a character that cannot go on in it (`lexeme?_append`).
-/

namespace ScriptedNotes.Script

open Text

/-! ### The cases of a lexeme -/

/-- Whether a text begins with two dashes or two slashes. -/
def opensComment : List Char → Bool
  | c :: d :: _ => (c == '-' || c == '/') && d == c
  | _ => false

/-- The lexeme of a text that no comment begins. -/
def plainLexeme? (c : Char) (s : List Char) : Option (Lexeme × List Char) :=
  if isGap c then some (.gap, s.dropWhile isGap)
  else if startsName c then
    some (.token (wordToken (.ofList ((c :: s).takeWhile isWord))), (c :: s).dropWhile isWord)
  else if c.isDigit then
    let (units, places, rest) := numberParts (c :: s)
    let x := Number.nearest false (Number.digitsValue (units ++ places)) (-(places.length : Int))
    some (.token (.number x), rest)
  else if c = '"' ∨ c = '\'' then
    (stringRest c s).map fun (raw, rest) => (.token (.string (.ofList raw)), rest)
  else (symbol? (c :: s)).map fun (symbol, rest) => (.token (.symbol symbol), rest)

lemma lexeme?_comment {s : List Char} (h : opensComment s = true) :
    lexeme? s = some (.gap, s.dropWhile (· ≠ '\n')) := by
  match s with
  | [] => cases h
  | [c] => cases h
  | c :: d :: s =>
    simp only [opensComment, Bool.and_eq_true, Bool.or_eq_true, beq_iff_eq] at h
    obtain ⟨rfl | rfl, rfl⟩ := h <;> simp [lexeme?]

lemma lexeme?_cons {c : Char} {s : List Char} (h : opensComment (c :: s) = false) :
    lexeme? (c :: s) = plainLexeme? c s := by
  unfold lexeme?
  split
  · next heq => cases heq
  · next heq => cases heq; cases h
  · next heq => cases heq; cases h
  · next heq => cases heq; rfl

/-- A lexeme of its own kind begins each comment. -/
lemma not_opensComment_of_token {s rest : List Char} {t : Token}
    (h : lexeme? s = some (.token t, rest)) : opensComment s = false := by
  by_contra hc
  rw [lexeme?_comment (by simpa using hc)] at h
  cases h

lemma isGap_of_lexeme? {c : Char} {s rest : List Char} (hs : opensComment (c :: s) = false)
    (h : lexeme? (c :: s) = some (.gap, rest)) : isGap c = true := by
  rw [lexeme?_cons hs] at h
  unfold plainLexeme? at h
  split_ifs at h with hgap
  · exact hgap
  · cases h
  · cases h
  · obtain ⟨x, -, he⟩ := Option.map_eq_some_iff.1 h
    cases he
  · obtain ⟨x, -, he⟩ := Option.map_eq_some_iff.1 h
    cases he

/-! ### A lexeme is a beginning of its text -/

lemma eq_append_dropWhile (p : Char → Bool) (s : List Char) :
    s = s.takeWhile p ++ s.dropWhile p :=
  (List.takeWhile_append_dropWhile).symm

/-- What a string literal covers behind its opening quote. -/
lemma stringRest_eq_append {quote : Char} {s raw rest : List Char}
    (h : stringRest quote s = some (raw, rest)) : s = raw ++ quote :: rest := by
  induction s using stringRest.induct quote generalizing raw rest with
  | case1 => simp [stringRest] at h
  | case2 s => simp [stringRest] at h
  | case3 c s hc ih =>
    simp only [stringRest, if_neg hc] at h
    obtain ⟨⟨raw', rest'⟩, hr, he⟩ := Option.map_eq_some_iff.1 h
    cases he
    simp [ih hr]
  | case4 s hs =>
    rw [stringRest, if_pos rfl] at h
    · cases h
      simp
    · exact hs
  | case5 c s hs hq hc =>
    rw [stringRest, if_neg hq, if_pos hc] at h
    · cases h
    · exact hs
  | case6 c s hs hq hc ih =>
    rw [stringRest, if_neg hq, if_neg hc] at h
    · obtain ⟨⟨raw', rest'⟩, hr, he⟩ := Option.map_eq_some_iff.1 h
      cases he
      simp [ih hr]
    · exact hs

lemma numberParts_eq_append (s : List Char) :
    ∃ covered, s = covered ++ (numberParts s).2.2 ∧ ∀ c ∈ covered, c.isDigit = true ∨ c = '.' := by
  have hs := eq_append_dropWhile Char.isDigit s
  have hunits : ∀ c ∈ s.takeWhile Char.isDigit, c.isDigit = true ∨ c = '.' :=
    fun c hc => .inl (List.mem_takeWhile_imp hc)
  unfold numberParts
  dsimp only
  split
  · next rest hd =>
    rw [hd] at hs
    split
    · exact ⟨_, hs, hunits⟩
    · refine ⟨s.takeWhile Char.isDigit ++ '.' :: rest.takeWhile Char.isDigit, ?_, ?_⟩
      · rw [List.append_assoc, List.cons_append, List.takeWhile_append_dropWhile]
        exact hs
      · intro c hc
        simp only [List.mem_append, List.mem_cons] at hc
        rcases hc with hc | rfl | hc
        · exact hunits c hc
        · exact .inr rfl
        · exact .inl (List.mem_takeWhile_imp hc)
  · exact ⟨_, hs, hunits⟩

lemma length_numberParts {c : Char} (h : c.isDigit = true) (s : List Char) :
    (numberParts (c :: s)).2.2.length < (c :: s).length := by
  have hdrop : ∀ t : List Char, (t.dropWhile Char.isDigit).length ≤ t.length :=
    fun t => (List.dropWhile_suffix _).length_le
  have hs := hdrop s
  unfold numberParts
  simp only [List.dropWhile_cons, h, if_true]
  split
  · next rest hd =>
    rw [hd, List.length_cons] at hs
    split
    · simp only [List.length_cons]
      omega
    · have := hdrop rest
      simp only [List.length_cons]
      omega
  · simp only [List.length_cons]
    omega

lemma spelling_ne_nil {spelling : List Char} {y : Symbol} (h : (spelling, y) ∈ symbolTable) :
    spelling ≠ [] := by
  have : ∀ e ∈ symbolTable, e.1 ≠ [] := by decide
  exact this _ h

lemma symbol?_eq_append {s rest : List Char} {y : Symbol} (h : symbol? s = some (y, rest)) :
    ∃ spelling, (spelling, y) ∈ symbolTable ∧ s = spelling ++ rest := by
  obtain ⟨⟨spelling, y'⟩, hmem, he⟩ := List.exists_of_findSome?_eq_some h
  obtain ⟨rest', ha, he⟩ := Option.map_eq_some_iff.1 he
  cases he
  exact ⟨spelling, hmem, after?_eq_some_iff.1 ha⟩

/-- **A lexeme is a beginning of its text**, and never an empty one. -/
theorem lexeme?_eq_append {s rest : List Char} {x : Lexeme} (h : lexeme? s = some (x, rest)) :
    ∃ covered, covered ≠ [] ∧ s = covered ++ rest := by
  by_cases hc : opensComment s = true
  · rw [lexeme?_comment hc] at h
    cases h
    refine ⟨s.takeWhile (· ≠ '\n'), ?_, eq_append_dropWhile _ s⟩
    match s with
    | [] | [_] => cases hc
    | c :: d :: s =>
      simp only [opensComment, Bool.and_eq_true, Bool.or_eq_true, beq_iff_eq] at hc
      obtain ⟨rfl | rfl, -⟩ := hc <;> simp
  match s with
  | [] => cases h
  | c :: s =>
    rw [lexeme?_cons (by simpa using hc)] at h
    unfold plainLexeme? at h
    split_ifs at h with hgap hname hdigit hquote
    · cases h
      exact ⟨c :: s.takeWhile isGap, by simp, by simp⟩
    · cases h
      have hword : isWord c = true := by
        simp only [startsName, isWord, Char.isAlphanum, Bool.or_eq_true] at hname ⊢
        tauto
      exact ⟨(c :: s).takeWhile isWord, by simp [hword], eq_append_dropWhile _ _⟩
    · cases h
      obtain ⟨covered, he, -⟩ := numberParts_eq_append (c :: s)
      refine ⟨covered, ?_, he⟩
      rintro rfl
      have hlt := length_numberParts hdigit s
      rw [List.nil_append] at he
      rw [← he] at hlt
      exact lt_irrefl _ hlt
    · obtain ⟨⟨raw, rest'⟩, hr, he⟩ := Option.map_eq_some_iff.1 h
      cases he
      exact ⟨c :: raw ++ [c], by simp, by simp [stringRest_eq_append hr]⟩
    · obtain ⟨⟨y, rest'⟩, hr, he⟩ := Option.map_eq_some_iff.1 h
      cases he
      obtain ⟨spelling, hmem, he⟩ := symbol?_eq_append hr
      exact ⟨spelling, spelling_ne_nil hmem, he⟩

section

variable {line : Nat} {s rest covered : List Char}

/-- What a lexeme covers is found again from the lengths. -/
lemma take_of_lexeme? {x : Lexeme} (h : lexeme? s = some (x, rest)) (hs : s = covered ++ rest) :
    rest.length < s.length ∧ s.take (s.length - rest.length) = covered := by
  obtain ⟨covered', hne, he⟩ := lexeme?_eq_append h
  obtain rfl : covered = covered' := List.append_cancel_right (hs.symm.trans he)
  have hpos := List.length_pos_iff.2 hne
  rw [hs, List.length_append]
  refine ⟨by omega, ?_⟩
  rw [Nat.add_sub_cancel, List.take_left]

lemma tokenizeFrom_gap {pos : Nat} (h : lexeme? s = some (.gap, rest)) (hs : s = covered ++ rest) :
    tokenizeFrom pos line s =
      tokenizeFrom (pos + byteSize covered) (line + lineFeeds covered) rest := by
  obtain ⟨hlt, htake⟩ := take_of_lexeme? h hs
  match s with
  | [] => cases h
  | c :: s =>
    rw [tokenizeFrom, h]
    simp only [if_pos hlt, htake]

lemma tokenizeFrom_token {pos : Nat} {t : Token} (h : lexeme? s = some (.token t, rest))
    (hs : s = covered ++ rest) :
    tokenizeFrom pos line s =
      (tokenizeFrom (pos + byteSize covered) (line + lineFeeds covered) rest).map
        (⟨t, pos, pos + byteSize covered, line⟩ :: ·) := by
  obtain ⟨hlt, htake⟩ := take_of_lexeme? h hs
  match s with
  | [] => cases h
  | c :: s =>
    rw [tokenizeFrom, h]
    simp only [if_pos hlt, htake]

end

/-! ### A lexeme does not see what stands behind it -/

/-- Whether no lexeme but a gap reaches from a text into what stands behind it. -/
def Ends (s : List Char) : List Char → Prop
  | [] => True
  | d :: _ => d = '\n' ∨ d = '\r' ∨ d = '/' ∧ s.getLast? ≠ some '/'

/-- What a character that ends a lexeme is not. -/
lemma Ends.head {s tail : List Char} {d : Char} (h : Ends s (d :: tail)) :
    isWord d = false ∧ d.isDigit = false ∧ d ≠ '.' ∧ d ≠ '-' ∧
      ∀ e ∈ symbolTable, d ∉ e.1.tail := by
  rcases h with rfl | rfl | ⟨rfl, -⟩ <;> decide

lemma takeWhile_append_stop {p : Char → Bool} {d : Char} (hd : p d = false) (s t : List Char) :
    (s ++ d :: t).takeWhile p = s.takeWhile p := by
  induction s with
  | nil => simp [hd]
  | cons c s ih =>
    rw [List.cons_append, List.takeWhile_cons, List.takeWhile_cons, ih]

lemma dropWhile_append_stop {p : Char → Bool} {d : Char} (hd : p d = false) (s t : List Char) :
    (s ++ d :: t).dropWhile p = s.dropWhile p ++ d :: t := by
  induction s with
  | nil => simp [hd]
  | cons c s ih =>
    rw [List.cons_append, List.dropWhile_cons, List.dropWhile_cons, ih]
    split <;> rfl

lemma opensComment_append {c : Char} {s tail : List Char} (hs : opensComment (c :: s) = false)
    (h : Ends (c :: s) tail) : opensComment (c :: (s ++ tail)) = false := by
  match s, tail with
  | d :: s, _ => exact hs
  | [], [] => rfl
  | [], d :: tail =>
    have hd := h.head.2.2.2.1
    simp only [List.nil_append, opensComment, Bool.and_eq_false_iff,
      Bool.or_eq_false_iff, beq_eq_false_iff_ne]
    by_cases hcd : d = c
    · subst hcd
      left
      refine ⟨hd, ?_⟩
      rintro rfl
      rcases h with h | h | ⟨-, h⟩
      · cases h
      · cases h
      · exact h rfl
    · exact .inr hcd

/-! ### String literals -/

section Strings

variable {quote : Char}

lemma stringRest_cons {c : Char} (hc : c ≠ '\\') (s : List Char) :
    stringRest quote (c :: s) =
      if c = quote then some ([], s)
      else if c = '\n' then none
      else (stringRest quote s).map fun (raw, rest) => (c :: raw, rest) := by
  rw [stringRest]
  · simp [hc]
  · intro c' s' h _
    exact hc h

/-- A literal that is closed does not see what stands behind it. -/
lemma stringRest_append {s raw rest : List Char} (hquote : quote ≠ '\\') (tail : List Char)
    (h : stringRest quote s = some (raw, rest)) :
    stringRest quote (s ++ tail) = some (raw, rest ++ tail) := by
  induction s using stringRest.induct quote generalizing raw rest with
  | case1 => simp [stringRest] at h
  | case2 s => simp [stringRest] at h
  | case3 c s hc ih =>
    simp only [stringRest, if_neg hc] at h
    obtain ⟨⟨raw', rest'⟩, hr, he⟩ := Option.map_eq_some_iff.1 h
    cases he
    simp [stringRest, hc, ih hr]
  | case4 s hs =>
    rw [stringRest_cons hquote, if_pos rfl] at h
    cases h
    rw [List.cons_append, stringRest_cons hquote, if_pos rfl]
  | case5 c s hs hq hc =>
    rw [stringRest, if_neg hq, if_pos hc] at h
    · cases h
    · exact hs
  | case6 c s hs hq hc ih =>
    rw [not_or] at hc
    rw [stringRest_cons hc.1, if_neg hq, if_neg hc.2] at h
    obtain ⟨⟨raw', rest'⟩, hr, he⟩ := Option.map_eq_some_iff.1 h
    cases he
    rw [List.cons_append, stringRest_cons hc.1, if_neg hq, if_neg hc.2, ih hr]
    rfl

/-- A literal that is not closed by the end of a text is open all along. -/
lemma stringRest_eq_none_of_append {s tail : List Char} (hquote : quote ≠ '\\')
    (h : stringRest quote (s ++ tail) = none) : stringRest quote s = none := by
  by_contra hclosed
  obtain ⟨⟨raw, rest⟩, hraw⟩ := Option.ne_none_iff_exists'.1 hclosed
  rw [stringRest_append hquote tail hraw] at h
  cases h

/-- A text without the quote does not close a literal. -/
lemma stringRest_of_not_mem {s : List Char} (h : quote ∉ s) : stringRest quote s = none := by
  by_contra hclosed
  obtain ⟨⟨raw, rest⟩, hraw⟩ := Option.ne_none_iff_exists'.1 hclosed
  rw [stringRest_eq_append hraw] at h
  simp at h

/-- A literal that is not closed is closed by no tail that closes neither an empty literal nor one
behind a backslash. -/
lemma stringRest_append_none {s tail : List Char} (hquote : quote ≠ '\\')
    (hplain : stringRest quote tail = none) (hescaped : stringRest quote ('\\' :: tail) = none)
    (h : stringRest quote s = none) : stringRest quote (s ++ tail) = none := by
  induction s using stringRest.induct quote with
  | case1 => exact hplain
  | case2 s => simp [stringRest]
  | case3 c s hc ih =>
    rw [stringRest, if_neg hc, Option.map_eq_none_iff] at h
    simp [stringRest, hc, ih h]
  | case4 s hs =>
    rw [stringRest_cons hquote, if_pos rfl] at h
    cases h
  | case5 c s hs hq hc =>
    rcases hc with rfl | rfl
    · match s with
      | [] => exact hescaped
      | c :: s => exact (hs c s rfl rfl).elim
    · rw [List.cons_append, stringRest_cons (by decide), if_neg hq, if_pos rfl]
  | case6 c s hs hq hc ih =>
    rw [not_or] at hc
    rw [stringRest_cons hc.1, if_neg hq, if_neg hc.2, Option.map_eq_none_iff] at h
    rw [List.cons_append, stringRest_cons hc.1, if_neg hq, if_neg hc.2, ih h]
    rfl

/-- A literal that its line does not close is not closed by a later one. -/
lemma stringRest_append_lineFeed {s : List Char} (hquote : quote ≠ '\\') (hfeed : quote ≠ '\n')
    (h : stringRest quote s = none) (tail : List Char) :
    stringRest quote (s ++ '\n' :: tail) = none := by
  refine stringRest_append_none hquote ?_ rfl h
  rw [stringRest_cons (by decide), if_neg hfeed.symm, if_pos rfl]

/-- Nor is it by a carriage return at the end of the text. -/
lemma stringRest_append_return {s : List Char} (hquote : quote ≠ '\\') (hreturn : quote ≠ '\r')
    (h : stringRest quote s = none) : stringRest quote (s ++ ['\r']) = none := by
  refine stringRest_append_none hquote ?_ rfl h
  rw [stringRest_cons (by decide), if_neg hreturn.symm, if_neg (by decide)]
  rfl

end Strings

/-! ### Numbers and symbols -/

lemma numberParts_append {d : Char} (hd : d.isDigit = false) (hdot : d ≠ '.') (s tail : List Char) :
    numberParts (s ++ d :: tail) =
      ((numberParts s).1, (numberParts s).2.1, (numberParts s).2.2 ++ d :: tail) := by
  unfold numberParts
  rw [takeWhile_append_stop hd, dropWhile_append_stop hd]
  match hs : s.dropWhile Char.isDigit with
  | [] => simp [hdot]
  | c :: rest =>
    by_cases hc : c = '.'
    · subst hc
      simp only [List.cons_append, takeWhile_append_stop hd, dropWhile_append_stop hd]
      split <;> rfl
    · simp [hc]

lemma after?_append {pattern : List Char} {c d : Char} (hd : d ∉ pattern.tail) (hp : pattern ≠ [])
    (s tail : List Char) : after? pattern (c :: s ++ d :: tail) =
      (after? pattern (c :: s)).map (· ++ d :: tail) := by
  induction pattern generalizing c s with
  | nil => exact (hp rfl).elim
  | cons p pattern ih =>
    rw [List.cons_append, after?, after?]
    split
    · cases pattern with
      | nil => rfl
      | cons q pattern =>
        cases s with
        | nil =>
          have hqd : q ≠ d := fun h => hd (by simp [h])
          simp [after?, hqd]
        | cons e s => exact ih (fun h => hd (List.mem_cons_of_mem _ h)) (List.cons_ne_nil _ _) s
    · rfl

lemma symbol?_append {c d : Char} (hd : ∀ e ∈ symbolTable, d ∉ e.1.tail) (s tail : List Char) :
    symbol? (c :: s ++ d :: tail) =
      (symbol? (c :: s)).map fun found => (found.1, found.2 ++ d :: tail) := by
  have hall : ∀ table ⊆ symbolTable,
      (table.findSome? fun entry =>
        (after? entry.1 (c :: s ++ d :: tail)).map fun rest => (entry.2, rest)) =
      (table.findSome? fun entry =>
        (after? entry.1 (c :: s)).map fun rest => (entry.2, rest)).map
          fun found => (found.1, found.2 ++ d :: tail) := by
    intro table
    induction table with
    | nil => exact fun _ => rfl
    | cons e table ih =>
      obtain ⟨spelling, y⟩ := e
      intro hsub
      obtain ⟨he, hsub⟩ := List.cons_subset.1 hsub
      simp only [List.findSome?_cons]
      rw [after?_append (hd _ he) (spelling_ne_nil he), ih hsub]
      cases after? spelling (c :: s) <;> rfl
  exact hall symbolTable (List.Subset.refl _)

/-! ### Lexemes -/

/-- **A token does not see what stands behind its end.** -/
theorem lexeme?_append {s rest tail : List Char} {t : Token} (hends : Ends s tail)
    (h : lexeme? s = some (.token t, rest)) :
    lexeme? (s ++ tail) = some (.token t, rest ++ tail) := by
  match s, tail with
  | [], _ => cases h
  | s, [] => simpa using h
  | c :: s, d :: tail =>
    have hopen := not_opensComment_of_token h
    obtain ⟨hword, hdigit, hdot, -, htable⟩ := hends.head
    rw [lexeme?_cons hopen] at h
    rw [List.cons_append, lexeme?_cons (opensComment_append hopen hends)]
    unfold plainLexeme? at h ⊢
    split_ifs at h ⊢ with hgap hname hnumber hquote
    · cases h
    · cases h
      rw [← List.cons_append, takeWhile_append_stop hword, dropWhile_append_stop hword]
    · rcases hparts : numberParts (c :: s) with ⟨units, places, rest'⟩
      rw [hparts] at h
      cases h
      rw [← List.cons_append, numberParts_append hdigit hdot, hparts]
    · obtain ⟨⟨raw, rest'⟩, hr, he⟩ := Option.map_eq_some_iff.1 h
      cases he
      have hc : c ≠ '\\' := by rcases hquote with rfl | rfl <;> decide
      rw [stringRest_append hc _ hr]
      rfl
    · obtain ⟨⟨y, rest'⟩, hr, he⟩ := Option.map_eq_some_iff.1 h
      cases he
      rw [← List.cons_append, symbol?_append htable, hr]
      rfl

/-- Where no lexeme begins, none begins before an end either, if no literal that is open there is
closed behind it. -/
theorem lexeme?_append_eq_none {c : Char} {s tail : List Char} (hends : Ends (c :: s) tail)
    (hopen : c = '"' ∨ c = '\'' → stringRest c s = none → stringRest c (s ++ tail) = none)
    (h : lexeme? (c :: s) = none) : lexeme? (c :: s ++ tail) = none := by
  match tail with
  | [] => simpa using h
  | d :: tail =>
    have hcomment : opensComment (c :: s) = false := by
      by_contra hc
      rw [lexeme?_comment (by simpa using hc)] at h
      cases h
    obtain ⟨-, -, -, -, htable⟩ := hends.head
    rw [lexeme?_cons hcomment] at h
    rw [List.cons_append, lexeme?_cons (opensComment_append hcomment hends)]
    unfold plainLexeme? at h ⊢
    split_ifs at h ⊢ with hgap hname hnumber hquote
    · rw [Option.map_eq_none_iff] at h ⊢
      exact hopen hquote h
    · rw [Option.map_eq_none_iff] at h
      rw [← List.cons_append, symbol?_append htable, h]
      rfl

end ScriptedNotes.Script
