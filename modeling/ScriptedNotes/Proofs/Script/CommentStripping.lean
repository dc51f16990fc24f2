import Mathlib.Data.List.Basic
import ScriptedNotes.Proofs.Script.Lexeme
import ScriptedNotes.Proofs.Script.Lockstep
import ScriptedNotes.Proofs.Text.Scanning
import ScriptedNotes.Script.Compile

/-!
Stripping comments and cutting into tokens. The scan that strips works on lines and knows slashes
and quotes only; cutting into tokens knows nothing of lines and takes a comment for a gap. Both see
the same tokens on the same lines (`marks_stripComments`), so a source of the full language means
the same with its comments and without them (`stripComments_transparent`).
-/

namespace ScriptedNotes.Script

open Text

/-! ### Tokens and their lines -/

/-- The tokens and their lines of a text that begins on a line, if it can be cut into tokens. -/
def marks (line : Nat) (s : List Char) : Option (List (Token × Nat)) :=
  (tokenizeFrom 0 line s).toOption.map (·.map Located.mark)

section Marks

variable {line : Nat} {s rest covered : List Char}

lemma lineFeeds_append (s t : List Char) : lineFeeds (s ++ t) = lineFeeds s + lineFeeds t :=
  List.count_append

lemma lineFeeds_eq_zero (h : '\n' ∉ s) : lineFeeds s = 0 :=
  List.count_eq_zero.2 h

lemma mark_map_cons (t : Located) (tokens : Except SyntaxError (List Located)) :
    (tokens.map (t :: ·)).toOption.map (·.map Located.mark) =
      (tokens.toOption.map (·.map Located.mark)).map (t.mark :: ·) := by
  cases tokens <;> rfl

/-- The byte at which cutting begins does not matter for the tokens and their lines. -/
lemma marks_eq (pos : Nat) (line : Nat) (s : List Char) :
    (tokenizeFrom pos line s).toOption.map (·.map Located.mark) = marks line s := by
  unfold marks
  generalize 0 = pos'
  induction hn : s.length using Nat.strong_induction_on generalizing pos pos' line s with
  | _ n ih =>
    cases s with
    | nil => simp [tokenizeFrom]
    | cons c s =>
      cases hx : lexeme? (c :: s) with
      | none => simp [tokenizeFrom, hx, Except.toOption]
      | some found =>
        obtain ⟨x, rest⟩ := found
        obtain ⟨covered, -, he⟩ := lexeme?_eq_append hx
        have hlt := (take_of_lexeme? hx he).1
        have hrest := fun pos line pos' => ih rest.length (hn ▸ hlt) pos line rest pos' rfl
        cases x with
        | gap =>
          rw [tokenizeFrom_gap hx he, tokenizeFrom_gap hx he]
          exact hrest _ _ _
        | token t =>
          rw [tokenizeFrom_token hx he, tokenizeFrom_token hx he]
          rw [mark_map_cons, mark_map_cons, hrest]
          rfl

@[simp] lemma marks_nil (line : Nat) : marks line [] = some [] := by
  simp [marks, tokenizeFrom, Except.toOption]

lemma marks_none {c : Char} (h : lexeme? (c :: s) = none) : marks line (c :: s) = none := by
  simp [marks, tokenizeFrom, h, Except.toOption]

lemma marks_gap (h : lexeme? s = some (.gap, rest)) (hs : s = covered ++ rest) :
    marks line s = marks (line + lineFeeds covered) rest := by
  rw [marks, tokenizeFrom_gap h hs, marks_eq]

lemma marks_token {t : Token} (h : lexeme? s = some (.token t, rest)) (hs : s = covered ++ rest) :
    marks line s = (marks (line + lineFeeds covered) rest).map ((t, line) :: ·) := by
  rw [marks, tokenizeFrom_token h hs, mark_map_cons, marks_eq]
  rfl

/-- A comment ends with its line. -/
lemma marks_comment (h : opensComment s = true) :
    marks line s = marks line (s.dropWhile (· ≠ '\n')) := by
  have hs := eq_append_dropWhile (· ≠ '\n') s
  rw [marks_gap (lexeme?_comment h) hs, lineFeeds_eq_zero, Nat.add_zero]
  intro hmem
  simpa using List.mem_takeWhile_imp hmem

lemma lexeme?_of_isGap {c : Char} (hc : isGap c = true) (s : List Char) :
    lexeme? (c :: s) = some (.gap, s.dropWhile isGap) := by
  have hopen : opensComment (c :: s) = false := by
    match s with
    | [] => rfl
    | d :: s =>
      have hne : c ≠ '-' ∧ c ≠ '/' := by
        constructor <;> rintro rfl <;> cases hc
      simp [opensComment, hne.1, hne.2]
  rw [lexeme?_cons hopen, plainLexeme?, if_pos hc]

lemma marks_dropBlanks (line : Nat) (s : List Char) :
    marks line s = marks (line + lineFeeds (s.takeWhile isGap)) (s.dropWhile isGap) := by
  match s with
  | [] => rfl
  | c :: s =>
    by_cases hc : isGap c = true
    · refine marks_gap ?_ (eq_append_dropWhile isGap _)
      rw [lexeme?_of_isGap hc, List.dropWhile_cons, if_pos hc]
    · rw [List.takeWhile_cons, List.dropWhile_cons, if_neg hc, if_neg hc]
      rfl

/-- A single blank is passed over. -/
lemma marks_blank {c : Char} (hc : isGap c = true) (line : Nat) (s : List Char) :
    marks line (c :: s) = marks (line + lineFeeds [c]) s := by
  rw [marks_dropBlanks line, marks_dropBlanks (line + lineFeeds [c]) s, List.takeWhile_cons,
    List.dropWhile_cons, if_pos hc, if_pos hc, Nat.add_assoc, ← lineFeeds_append]
  rfl

end Marks

/-! ### The scan for comments and the literals -/

/-- Where a scan stands behind a text. -/
def Scanning.after (state : Scanning) (s : List Char) : Scanning :=
  s.foldl Scanning.next state

section Scan

variable {quote : Char} {s raw rest covered : List Char}

@[simp] lemma Scanning.after_nil (state : Scanning) : state.after [] = state := rfl

@[simp] lemma Scanning.after_cons (state : Scanning) (c : Char) (s : List Char) :
    state.after (c :: s) = (state.next c).after s := rfl

lemma Scanning.after_append (state : Scanning) (s t : List Char) :
    state.after (s ++ t) = (state.after s).after t :=
  List.foldl_append

/-- Text without quotes keeps the scan outside of literals. -/
lemma Scanning.after_code (h : ∀ c ∈ s, c ≠ '"' ∧ c ≠ '\'') : Scanning.code.after s = .code := by
  induction s with
  | nil => rfl
  | cons c s ih =>
    obtain ⟨hc, hs⟩ := List.forall_mem_cons.1 h
    rw [Scanning.after_cons, show Scanning.code.next c = .code by simp [Scanning.next, hc], ih hs]

/-- The scan leaves a literal where the literal is closed. -/
lemma Scanning.after_literal (h : stringRest quote s = some (raw, rest)) (hquote : quote ≠ '\\') :
    (Scanning.literal quote).after s = Scanning.code.after rest := by
  induction s using stringRest.induct quote generalizing raw rest with
  | case1 => simp [stringRest] at h
  | case2 s => simp [stringRest] at h
  | case3 c s hc ih =>
    rw [stringRest, if_neg hc] at h
    obtain ⟨⟨raw', rest'⟩, hr, he⟩ := Option.map_eq_some_iff.1 h
    cases he
    exact ih hr
  | case4 s hs =>
    rw [stringRest_cons hquote, if_pos rfl] at h
    cases h
    rw [Scanning.after_cons, show (Scanning.literal quote).next quote = .code by
      simp [Scanning.next, hquote]]
  | case5 c s hs hq hc =>
    rw [stringRest, if_neg hq, if_pos hc] at h
    · cases h
    · exact hs
  | case6 c s hs hq hc ih =>
    rw [not_or] at hc
    rw [stringRest_cons hc.1, if_neg hq, if_neg hc.2] at h
    obtain ⟨⟨raw', rest'⟩, hr, he⟩ := Option.map_eq_some_iff.1 h
    cases he
    rw [Scanning.after_cons, show (Scanning.literal quote).next c = .literal quote by
      simp [Scanning.next, hq, hc.1], ih hr]

/-- The scan stays in a literal that its line does not close. -/
lemma Scanning.after_open (h : stringRest quote s = none) (hfeed : '\n' ∉ s)
    (hquote : quote ≠ '\\') : (Scanning.literal quote).after s ≠ .code := by
  induction s using stringRest.induct quote with
  | case1 => exact Scanning.noConfusion
  | case2 s => simp at hfeed
  | case3 c s hc ih =>
    rw [stringRest, if_neg hc, Option.map_eq_none_iff] at h
    exact ih h fun hmem => hfeed (List.mem_cons_of_mem _ (List.mem_cons_of_mem _ hmem))
  | case4 s hs =>
    rw [stringRest_cons hquote, if_pos rfl] at h
    cases h
  | case5 c s hs hq hc =>
    rcases hc with rfl | rfl
    · cases s with
      | nil => exact Scanning.noConfusion
      | cons c s => exact (hs c s rfl rfl).elim
    · simp at hfeed
  | case6 c s hs hq hc ih =>
    rw [not_or] at hc
    rw [stringRest_cons hc.1, if_neg hq, if_neg hc.2, Option.map_eq_none_iff] at h
    rw [Scanning.after_cons, show (Scanning.literal quote).next c = .literal quote by
      simp [Scanning.next, hq, hc.1]]
    exact ih h fun hmem => hfeed (List.mem_cons_of_mem _ hmem)

/-- A token is passed over by the scan as a whole. -/
lemma Scanning.after_token {t : Token} (h : lexeme? s = some (.token t, rest)) :
    Scanning.code.after s = Scanning.code.after rest := by
  have hcode : ∀ {covered}, s = covered ++ rest → (∀ c ∈ covered, c ≠ '"' ∧ c ≠ '\'') →
      Scanning.code.after s = Scanning.code.after rest := by
    intro covered he hc
    rw [he, Scanning.after_append, Scanning.after_code hc]
  match s with
  | [] => cases h
  | c :: s =>
    rw [lexeme?_cons (not_opensComment_of_token h)] at h
    unfold plainLexeme? at h
    split_ifs at h with hgap hname hnumber hquote
    · cases h
    · cases h
      refine hcode (eq_append_dropWhile isWord _) fun d hd => ?_
      have hd := List.mem_takeWhile_imp hd
      constructor <;> rintro rfl <;> cases hd
    · cases h
      obtain ⟨covered, he, hc⟩ := numberParts_eq_append (c :: s)
      refine hcode he fun d hd => ?_
      constructor <;> rintro rfl <;> rcases hc _ hd with hd | hd <;> cases hd
    · obtain ⟨⟨raw, rest'⟩, hr, he⟩ := Option.map_eq_some_iff.1 h
      cases he
      have hc : c ≠ '\\' := by rcases hquote with rfl | rfl <;> decide
      rw [Scanning.after_cons, show Scanning.code.next c = .literal c by
        simp [Scanning.next, hquote], Scanning.after_literal hr hc]
    · obtain ⟨⟨y, rest'⟩, hr, he⟩ := Option.map_eq_some_iff.1 h
      cases he
      obtain ⟨spelling, hmem, he⟩ := symbol?_eq_append hr
      have hall : ∀ e ∈ symbolTable, e.1.all (fun d => decide (d ≠ '"' ∧ d ≠ '\'')) = true := by
        decide
      exact hcode he fun d hd => of_decide_eq_true (List.all_eq_true.1 (hall _ hmem) d hd)

end Scan

/-! ### Where a line can be cut -/

/-- A tail that changes nothing in how the text before it is cut into tokens. -/
inductive Boundary (s : List Char) : List Char → Prop
  | lineFeed (tail : List Char) : Boundary s ('\n' :: tail)
  | carriageReturn : Boundary s ['\r']
  | comment {tail : List Char} (hfeed : '\n' ∉ tail) (hcode : Scanning.code.after s = .code)
      (hslash : s.getLast? ≠ some '/') : Boundary s ('/' :: '/' :: tail)

namespace Boundary

variable {s rest tail : List Char}

lemma ends (h : Boundary s tail) : Ends s tail := by
  cases h with
  | lineFeed tail => exact .inl rfl
  | carriageReturn => exact .inr (.inl rfl)
  | comment hfeed hcode hslash => exact .inr (.inr ⟨rfl, hslash⟩)

/-- Of the text before the tail only the end matters. -/
lemma of_append {covered : List Char} (h : Boundary (covered ++ rest) tail)
    (hcode : Scanning.code.after (covered ++ rest) = Scanning.code.after rest) :
    Boundary rest tail := by
  cases h with
  | lineFeed tail => exact .lineFeed tail
  | carriageReturn => exact .carriageReturn
  | comment hfeed hc hslash =>
    refine .comment hfeed (hcode ▸ hc) fun hlast => hslash ?_
    rw [List.getLast?_append, hlast]
    rfl

lemma blank {c : Char} (h : Boundary (c :: s) tail) (hc : isGap c = true) : Boundary s tail := by
  refine of_append (show Boundary ([c] ++ s) tail from h) ?_
  have hne : ¬ (c = '"' ∨ c = '\'') := by rintro (rfl | rfl) <;> cases hc
  rw [List.singleton_append, Scanning.after_cons, Scanning.next, if_neg hne]

lemma token {t : Token} (h : Boundary s tail) (ht : lexeme? s = some (.token t, rest)) :
    Boundary rest tail := by
  obtain ⟨covered, -, he⟩ := lexeme?_eq_append ht
  have hcode := Scanning.after_token ht
  rw [he] at h hcode
  exact of_append h hcode

/-- No literal that is open before the tail is closed by it. -/
lemma stringRest_eq_none {quote : Char} (h : Boundary (quote :: s) tail)
    (hquote : quote = '"' ∨ quote = '\'') (hfeed : '\n' ∉ s) (hs : stringRest quote s = none) :
    stringRest quote (s ++ tail) = none := by
  have hne : quote ≠ '\\' ∧ quote ≠ '\n' ∧ quote ≠ '\r' := by
    rcases hquote with rfl | rfl <;> decide
  cases h with
  | lineFeed tail => exact stringRest_append_lineFeed hne.1 hne.2.1 hs tail
  | carriageReturn => exact stringRest_append_return hne.1 hne.2.2 hs
  | comment _ hcode _ =>
    rw [Scanning.after_cons, Scanning.next, if_pos hquote] at hcode
    exact absurd hcode (Scanning.after_open hs hfeed hne.1)

/-- Behind a comment that reaches the tail only the next line is left. -/
lemma marks_dropWhile (h : Boundary s tail) (line : Nat) :
    marks line (tail.dropWhile (· ≠ '\n')) = marks line tail := by
  cases h with
  | lineFeed tail => rfl
  | carriageReturn => simpa using (marks_blank (c := '\r') rfl line []).symm
  | comment hfeed _ _ => exact (marks_comment rfl).symm

end Boundary

/-- **A line and what follows are cut separately.** -/
theorem marks_append {s tail : List Char} (line : Nat) (h : Boundary s tail) (hfeed : '\n' ∉ s) :
    marks line (s ++ tail) = (marks line s).bind fun here => (marks line tail).map (here ++ ·) := by
  induction hn : s.length using Nat.strong_induction_on generalizing s with
  | _ n ih =>
    match s with
    | [] => simp
    | c :: s =>
      have hs : '\n' ∉ s := fun hmem => hfeed (List.mem_cons_of_mem _ hmem)
      by_cases hopen : opensComment (c :: s) = true
      · -- the comment takes the rest of the line, on both sides
        have hopen' : opensComment (c :: s ++ tail) = true := by
          match s with
          | [] => cases hopen
          | d :: s => exact hopen
        have hall : ∀ d ∈ c :: s, (decide (d ≠ '\n')) = true := by
          intro d hd
          exact decide_eq_true fun he => hfeed (he ▸ hd)
        rw [marks_comment hopen, marks_comment hopen', List.dropWhile_append_of_pos hall,
          List.dropWhile_eq_nil_iff.2 hall, h.marks_dropWhile]
        simp
      match hx : lexeme? (c :: s) with
      | none =>
        have hnone : lexeme? (c :: (s ++ tail)) = none :=
          lexeme?_append_eq_none h.ends (fun hquote => h.stringRest_eq_none hquote hs) hx
        rw [marks_none hx, List.cons_append, marks_none hnone]
        rfl
      | some (.gap, rest) =>
        have hgap := isGap_of_lexeme? (by simpa using hopen) hx
        have hc : lineFeeds [c] = 0 := lineFeeds_eq_zero (by
          rw [List.mem_singleton]
          rintro rfl
          simp at hfeed)
        rw [List.cons_append, marks_blank hgap, marks_blank hgap, hc, Nat.add_zero]
        exact ih s.length (hn ▸ Nat.lt_succ_self _) (h.blank hgap) hs rfl
      | some (.token t, rest) =>
        obtain ⟨covered, -, he⟩ := lexeme?_eq_append hx
        have hrest : '\n' ∉ rest := fun hmem => hfeed (he ▸ List.mem_append_right _ hmem)
        have hcovered : '\n' ∉ covered := fun hmem => hfeed (he ▸ List.mem_append_left _ hmem)
        have hlt := (take_of_lexeme? hx he).1
        have he' : c :: s ++ tail = covered ++ (rest ++ tail) := by rw [he, List.append_assoc]
        rw [marks_token hx he, marks_token (lexeme?_append h.ends hx) he',
          lineFeeds_eq_zero hcovered, Nat.add_zero,
          ih rest.length (hn ▸ hlt) (h.token hx) hrest rfl]
        cases marks line rest <;> cases marks line tail <;> rfl

/-- A tail without tokens can be left out. -/
lemma marks_append_of_empty {s tail : List Char} {line : Nat} (h : Boundary s tail)
    (hfeed : '\n' ∉ s) (hempty : marks line tail = some []) :
    marks line (s ++ tail) = marks line s := by
  rw [marks_append line h hfeed, hempty]
  cases marks line s <;> simp

/-! ### Stripping a source -/

section Strip

/-- Whether the literal that a scan is in, if any, is not closed by a slash. -/
def Scanning.Sane : Scanning → Prop
  | .code => True
  | .literal quote | .escaped quote => quote ≠ '/'

lemma Scanning.Sane.next {state : Scanning} (h : state.Sane) (c : Char) : (state.next c).Sane := by
  cases state with
  | code =>
    rw [Scanning.next]
    split
    · next hc => rcases hc with rfl | rfl <;> simp [Sane]
    · trivial
  | literal quote =>
    rw [Scanning.next]
    split_ifs
    · exact h
    · trivial
    · exact h
  | escaped quote => exact h

lemma stripLine_cons {state : Scanning} {c : Char} {l : List Char}
    (h : ¬ (state = .code ∧ c = '/' ∧ l.head? = some '/')) :
    stripLine state (c :: l) = c :: stripLine (state.next c) l := by
  rw [stripLine]
  rintro tail rfl rfl rfl
  exact h ⟨rfl, rfl, rfl⟩

/-- What is stripped off a line is nothing or a comment. -/
lemma stripLine_boundary {state : Scanning} (hstate : state.Sane) (l : List Char) :
    ∃ stripped, l = stripLine state l ++ stripped ∧
      (stripped = [] ∨ ∃ tail, stripped = '/' :: '/' :: tail ∧
        state.after (stripLine state l) = .code ∧ (stripLine state l).getLast? ≠ some '/') := by
  induction l generalizing state with
  | nil => exact ⟨[], rfl, .inl rfl⟩
  | cons c l ih =>
    by_cases h : state = .code ∧ c = '/' ∧ l.head? = some '/'
    · obtain ⟨rfl, rfl, hl⟩ := h
      obtain ⟨tail, rfl⟩ := List.head?_eq_some_iff.1 hl
      exact ⟨'/' :: '/' :: tail, rfl, .inr ⟨tail, rfl, rfl, by simp [stripLine]⟩⟩
    obtain ⟨stripped, he, hs⟩ := ih (hstate.next c)
    rw [stripLine_cons h]
    refine ⟨stripped, by rw [List.cons_append, ← he], hs.imp_right ?_⟩
    rintro ⟨tail, rfl, hcode, hslash⟩
    refine ⟨tail, rfl, hcode, ?_⟩
    match hline : stripLine (state.next c) l with
    | d :: kept =>
      rw [List.getLast?_cons_cons, ← hline]
      exact hslash
    | [] =>
      -- the comment stands right behind `c`, which would be its first slash in code
      rw [hline] at he hcode
      rintro hc
      obtain rfl : c = '/' := by simpa using hc
      cases state with
      | code => exact h ⟨rfl, rfl, by rw [he]; rfl⟩
      | literal quote =>
        rw [Scanning.after_nil, Scanning.next, if_neg (by decide), if_neg (Ne.symm hstate)] at hcode
        cases hcode
      | escaped quote => cases hcode

variable {l : List Char}

lemma lineFeed_not_mem_stripLine (hfeed : '\n' ∉ l) : '\n' ∉ stripLine .code l := by
  obtain ⟨stripped, he, -⟩ := stripLine_boundary (show Scanning.code.Sane from trivial) l
  exact fun hmem => hfeed (he ▸ List.mem_append_left _ hmem)

/-- A line without its comment holds the same tokens. -/
lemma marks_stripLine (line : Nat) (hfeed : '\n' ∉ l) :
    marks line (stripLine .code l) = marks line l := by
  obtain ⟨stripped, he, rfl | ⟨tail, rfl, hcode, hslash⟩⟩ :=
    stripLine_boundary (show Scanning.code.Sane from trivial) l
  · rw [List.append_nil] at he
    rw [← he]
  have htail : '\n' ∉ tail := by
    intro hmem
    refine hfeed (he ▸ List.mem_append_right _ ?_)
    exact List.mem_cons_of_mem _ (List.mem_cons_of_mem _ hmem)
  have hb : Boundary (stripLine .code l) ('/' :: '/' :: tail) := .comment htail hcode hslash
  have hempty : marks line ('/' :: '/' :: tail) = some [] := by
    rw [marks_comment rfl, List.dropWhile_eq_nil_iff.2, marks_nil]
    intro d hd
    refine decide_eq_true ?_
    rintro rfl
    simp [htail] at hd
  conv_rhs => rw [he]
  exact (marks_append_of_empty hb (lineFeed_not_mem_stripLine hfeed) hempty).symm

lemma lineFeed_not_mem_dropReturn (hfeed : '\n' ∉ l) : '\n' ∉ dropReturn l := by
  unfold dropReturn
  split
  · exact fun hmem => hfeed ((List.dropLast_subset l) hmem)
  · exact hfeed

/-- A carriage return at the end of a line holds no token. -/
lemma marks_dropReturn (line : Nat) (hfeed : '\n' ∉ l) :
    marks line (dropReturn l) = marks line l := by
  have hmem := lineFeed_not_mem_dropReturn hfeed
  by_cases hlast : l.getLast? = some '\r'
  · rw [dropReturn, if_pos hlast] at hmem ⊢
    conv_rhs => rw [← List.dropLast_append_getLast? '\r' hlast]
    exact (marks_append_of_empty .carriageReturn hmem (by rw [marks_blank rfl]; simp)).symm
  · rw [dropReturn, if_neg hlast]

/-- The first of some lines is cut by itself. -/
lemma marks_intercalate (line : Nat) (hfeed : '\n' ∉ l) (ls : List (List Char)) :
    marks line (['\n'].intercalate (l :: ls)) = (marks line l).bind fun here =>
      (marks (line + 1) (['\n'].intercalate ls)).map (here ++ ·) := by
  match ls with
  | [] =>
    rw [List.intercalate_singleton, List.intercalate_nil, marks_nil]
    cases marks line l <;> simp
  | m :: ls =>
    rw [List.intercalate_cons_cons, List.append_assoc, List.singleton_append,
      marks_append line (.lineFeed _) hfeed, marks_blank rfl]
    rfl

lemma marks_closeLines (line : Nat) (ls : List (List Char)) (hfeed : ∀ l ∈ ls, '\n' ∉ l) :
    marks line (['\n'].intercalate ((closeLines ls).map (stripLine .code))) =
      marks line (['\n'].intercalate ls) := by
  induction ls using closeLines.induct generalizing line with
  | case1 => rfl
  | case2 last hlast =>
    obtain rfl : last = [] := by simpa using hlast
    rfl
  | case3 last hlast =>
    rw [closeLines, if_neg hlast, List.map_singleton, List.intercalate_singleton,
      List.intercalate_singleton]
    exact marks_stripLine line (hfeed last (List.mem_singleton_self last))
  | case4 l rest hrest ih =>
    obtain ⟨hl, hls⟩ := List.forall_mem_cons.1 hfeed
    have hdrop := lineFeed_not_mem_dropReturn hl
    rw [closeLines, List.map_cons, marks_intercalate line (lineFeed_not_mem_stripLine hdrop),
      marks_intercalate line hl, marks_stripLine line hdrop, marks_dropReturn line hl,
      ih (line + 1) hls]
    exact hrest

/-- No piece between line feeds holds one. -/
lemma lineFeed_not_mem_pieces (s : List Char) : ∀ l ∈ pieces s, '\n' ∉ l :=
  fun _ hl => sep_not_mem_of_mem_splitOn hl

/-- **Stripping comments keeps the tokens and their lines.** -/
theorem marks_stripComments (line : Nat) (s : List Char) :
    marks line (stripComments s) = marks line s := by
  unfold stripComments lines
  rw [marks_closeLines line _ (lineFeed_not_mem_pieces s), pieces, List.intercalate_splitOn]

end Strip

/-! ### Programs -/

lemma SameOutcome.toOption_eq {α : Type} {x y : Except SyntaxError α}
    (h : SameOutcome (fun _ _ => True) x y) : x.toOption = y.toOption := by
  match x, y with
  | .ok _, .ok _ => exact congrArg some h
  | .error _, .error _ => rfl
  | .ok _, .error _ | .error _, .ok _ => exact h.elim

/-- Sources with the same tokens on the same lines write the same program. -/
lemma parseProgram_of_marks {s s' : List Char} (h : marks 1 s = marks 1 s')
    (interpolated : Bool) :
    (parseProgram s interpolated).toOption = (parseProgram s' interpolated).toOption := by
  unfold marks at h
  unfold parseProgram tokenize
  match hs : tokenizeFrom 0 1 s, hs' : tokenizeFrom 0 1 s' with
  | .error _, .error _ => rfl
  | .ok ts, .ok us =>
    rw [hs, hs'] at h
    have hmap : ts.map Located.mark = us.map Located.mark := Option.some.inj h
    exact (sameOutcome_programOf (faithful_mark _) (forall₂_mark hmap)).toOption_eq
  | .ok _, .error _ | .error _, .ok _ =>
    rw [hs, hs'] at h
    cases h

/-- What is left of compiling when a program of a dialect has been read or could not be. -/
def placedIn (tier : Tier) (x : Except SyntaxError Program) : Except SyntaxError Compiled := do
  let program ← x
  placedStmts {} program
  return ⟨tier, program⟩

lemma compile_eq_placedIn (source : List Char) :
    compile source = placedIn (Tier.ofSource (stripComments source))
      (programIn (Tier.ofSource (stripComments source)) (stripComments source)) := rfl

lemma placedIn_toOption (tier : Tier) {x y : Except SyntaxError Program}
    (h : x.toOption = y.toOption) : (placedIn tier x).toOption = (placedIn tier y).toOption := by
  match x, y with
  | .error _, .error _ => rfl
  | .ok p, .ok q =>
    obtain rfl : p = q := Option.some.inj h
    rfl
  | .ok _, .error _ | .error _, .ok _ => cases h

lemma tier_of_placedIn {tier : Tier} {x : Except SyntaxError Program} {compiled : Compiled}
    (h : (placedIn tier x).toOption = some compiled) : compiled.tier = tier := by
  match x with
  | .error _ => cases h
  | .ok p =>
    change (placedStmts {} p >>= fun _ => .ok ⟨tier, p⟩).toOption = some compiled at h
    cases hp : placedStmts {} p with
    | error _ =>
      rw [hp] at h
      cases h
    | ok _ =>
      rw [hp] at h
      cases h
      rfl

/-- **Stripping comments never changes what a source of the full language means.** With its comments
and without them it has the same tokens on the same lines or none, and the same program or none; so
what is compiled to the full language is what its source, read with its comments, means there. -/
theorem stripComments_transparent (source : List Char) :
    (tokenize (stripComments source)).toOption.map (·.map Located.mark) =
        (tokenize source).toOption.map (·.map Located.mark) ∧
      (∀ interpolated, (parseProgram (stripComments source) interpolated).toOption =
        (parseProgram source interpolated).toOption) ∧
      (compile source).toOption.filter (·.tier = .advanced) =
        if Tier.ofSource (stripComments source) = .advanced then
          (placedIn .advanced (parseProgram source true)).toOption
        else none := by
  have hmarks := marks_stripComments 1 source
  have hprogram := parseProgram_of_marks hmarks
  refine ⟨hmarks, hprogram, ?_⟩
  rw [compile_eq_placedIn]
  split
  · next htier =>
    rw [htier, ← placedIn_toOption .advanced (hprogram true)]
    cases h : (placedIn .advanced (parseProgram (stripComments source) true)).toOption with
    | none => exact congrArg (Option.filter _) h
    | some compiled =>
      exact (congrArg (Option.filter _) h).trans
        (Option.filter_some_pos (decide_eq_true (tier_of_placedIn h)))
  · next htier =>
    rw [Option.filter_eq_none_iff]
    intro compiled h
    rw [tier_of_placedIn h]
    simpa using htier

end ScriptedNotes.Script
