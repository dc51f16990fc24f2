import ScriptedNotes.Proofs.Script.CommentStripping
import ScriptedNotes.Proofs.Text.LineEnds

/-!
Sources line by line. Stripping comments rewrites the lines of a source and may lose the returns
that end them and an empty line at the end; what does not see these sees the stripped pieces of the
source (`LineWise.stripComments`). The tests by which the dialect is chosen look at one line at a
time (`LineLocal`).
-/

namespace ScriptedNotes.Script

open Text

/-! ### Pieces -/

section Pieces

variable {s t : List Char} {ls : List (List Char)}

lemma pieces_append_feed (s t : List Char) : pieces (s ++ '\n' :: t) = pieces s ++ pieces t :=
  List.splitOn_append_cons_self s t

lemma pieces_of_not_mem (h : '\n' ∉ s) : pieces s = [s] :=
  List.splitOn_eq_singleton h

lemma pieces_intercalate (hfeed : ∀ l ∈ ls, '\n' ∉ l) (hne : ls ≠ []) :
    pieces (['\n'].intercalate ls) = ls :=
  List.splitOn_intercalate '\n' hfeed hne

end Pieces

/-! ### Lines without their comments -/

/-- The pieces of a source, each up to its comment. -/
def codeLines (s : List Char) : List (List Char) :=
  (pieces s).map (stripLine .code)

/-- Whether what is made of lines depends neither on a return at the end of one nor on an empty line
at the end of them. -/
structure LineWise {β : Type} (f : List (List Char) → β) : Prop where
  emptyLast : f [[]] = f []
  lineReturn (l : List Char) (ls : List (List Char)) : f ((l ++ ['\r']) :: ls) = f (l :: ls)
  cons (l : List Char) {ls ls' : List (List Char)} : f ls = f ls' → f (l :: ls) = f (l :: ls')

/-- A return at the end of a line stays there or falls to the comment. -/
lemma stripLine_return (state : Scanning) (l : List Char) :
    stripLine state (l ++ ['\r']) = stripLine state l ++ ['\r'] ∨
      stripLine state (l ++ ['\r']) = stripLine state l := by
  induction l generalizing state with
  | nil =>
    left
    rw [List.nil_append, stripLine_cons (by simp)]
    rfl
  | cons c l ih =>
    by_cases h : state = .code ∧ c = '/' ∧ l.head? = some '/'
    · obtain ⟨rfl, rfl, hl⟩ := h
      obtain ⟨tail, rfl⟩ := List.head?_eq_some_iff.1 hl
      exact .inr rfl
    · have h' : ¬ (state = .code ∧ c = '/' ∧ (l ++ ['\r']).head? = some '/') := by
        cases l with
        | nil => simp
        | cons d l => exact h
      rw [List.cons_append, stripLine_cons h, stripLine_cons h']
      exact (ih (state.next c)).imp (congrArg (c :: ·)) (congrArg (c :: ·))

lemma dropReturn_eq (l : List Char) : dropReturn l = l ∨ l = dropReturn l ++ ['\r'] := by
  unfold dropReturn
  split_ifs with hlast
  · exact .inr (List.dropLast_append_getLast? '\r' hlast).symm
  · exact .inl rfl

namespace LineWise

variable {β : Type} {f : List (List Char) → β}

lemma dropReturn (hf : LineWise f) (l : List Char) (ls : List (List Char)) :
    f (dropReturn l :: ls) = f (l :: ls) := by
  rcases dropReturn_eq l with h | h
  · rw [h]
  · rw [← hf.lineReturn (Text.dropReturn l), ← h]

lemma closeLines (hf : LineWise f) (ls : List (List Char)) : f (closeLines ls) = f ls := by
  induction ls using closeLines.induct with
  | case1 => rfl
  | case2 last hlast =>
    rw [Text.closeLines, if_pos hlast, List.isEmpty_iff.1 hlast, hf.emptyLast]
  | case3 last hlast => rw [Text.closeLines, if_neg hlast]
  | case4 l rest hrest ih =>
    rw [Text.closeLines]
    · rw [hf.dropReturn]
      exact hf.cons l ih
    · exact hrest

lemma strip (hf : LineWise f) : LineWise fun ls => f (ls.map (stripLine .code)) where
  emptyLast := hf.emptyLast
  lineReturn l ls := by
    rw [List.map_cons, List.map_cons]
    rcases stripLine_return .code l with h | h
    · rw [h, hf.lineReturn]
    · rw [h]
  cons l _ _ h := by
    rw [List.map_cons, List.map_cons]
    exact hf.cons _ h

/-- **What is made of lines is made of the stripped pieces of the source.** -/
theorem stripComments (hf : LineWise f) (s : List Char) :
    f (lines (stripComments s)) = f (codeLines s) := by
  have hlines : f ((lines s).map (stripLine .code)) = f (codeLines s) := hf.strip.closeLines _
  rw [← hlines, lines, hf.closeLines]
  have hfeed : ∀ l ∈ (lines s).map (stripLine .code), '\n' ∉ l := by
    intro l hl
    obtain ⟨l', hl', rfl⟩ := List.mem_map.1 hl
    obtain ⟨piece, hpiece, hsub⟩ := subset_of_mem_closeLines hl'
    exact lineFeed_not_mem_stripLine fun hmem => lineFeed_not_mem_pieces s piece hpiece (hsub hmem)
  unfold Script.stripComments
  generalize (lines s).map (stripLine .code) = ls at hfeed ⊢
  match ls with
  | [] => exact hf.emptyLast
  | l :: ls => rw [pieces_intercalate hfeed (List.cons_ne_nil l ls)]

end LineWise

/-! ### Tests of a line -/

/-- Whether a test of a text looks at one line at a time and does not see the return that ends
it. -/
structure LineLocal (test : List Char → Bool) : Prop where
  nil : test [] = false
  feed (s t : List Char) : test (s ++ '\n' :: t) = (test s || test t)
  lineReturn (s : List Char) : test (s ++ ['\r']) = test s

namespace LineLocal

variable {test : List Char → Bool}

/-- A text passes if one of its lines does. -/
lemma eq_any (h : LineLocal test) (s : List Char) : test s = (pieces s).any test := by
  induction hn : s.length using Nat.strong_induction_on generalizing s with
  | _ n ih =>
    rcases eq_append_feed s with hs | ⟨l, rest, hl, rfl⟩
    · rw [pieces_of_not_mem hs, List.any_cons, List.any_nil, Bool.or_false]
    · have hlt : rest.length < n := by
        rw [← hn, List.length_append, List.length_cons]
        omega
      rw [h.feed, pieces_append_feed, pieces_of_not_mem hl, List.any_append, List.any_cons,
        List.any_nil, Bool.or_false, ih rest.length hlt rest rfl]

lemma lineWise (h : LineLocal test) : LineWise fun ls => ls.any test where
  emptyLast := by
    rw [List.any_cons, h.nil, Bool.false_or]
  lineReturn l ls := by
    rw [List.any_cons, List.any_cons, h.lineReturn]
  cons l ls ls' heq := by
    rw [List.any_cons, List.any_cons, heq]

lemma stripComments (h : LineLocal test) (s : List Char) :
    test (stripComments s) = (codeLines s).any test := by
  have hlines := h.lineWise.stripComments s
  rw [← hlines, lines, h.lineWise.closeLines]
  exact h.eq_any _

end LineLocal

section Tests

variable {pattern : List Char} {d : Char}

/-- A character that can neither be in a word nor go on in it cuts the search for the word. -/
lemma mentions_append_stop (hne : pattern ≠ []) (hd : d ∉ pattern) (hword : isWord d = false)
    (inWord : Bool) (s t : List Char) :
    mentions pattern inWord (s ++ d :: t) =
      (mentions pattern inWord s || mentions pattern false t) := by
  have htail : d ∉ pattern.tail := fun hmem => hd (List.mem_of_mem_tail hmem)
  induction s generalizing inWord with
  | nil =>
    obtain ⟨p, pattern, rfl⟩ := List.exists_cons_of_ne_nil hne
    have hp : p ≠ d := fun h => hd (h ▸ List.mem_cons_self)
    have hhere : after? (p :: pattern) (d :: t) = none := by rw [after?, if_neg hp]
    simp only [List.nil_append, mentions, hhere, hword, Bool.false_or]
  | cons c s ih =>
    rw [List.cons_append, mentions, ← List.cons_append, after?_append htail hne, ih, mentions]
    cases after? pattern (c :: s) with
    | none => rfl
    | some rest =>
      have hhead : (rest ++ d :: t).head?.any isWord = rest.head?.any isWord := by
        cases rest with
        | nil => simpa using hword
        | cons e rest => rfl
      simp only [Option.map_some, hhead, Bool.or_assoc]

/-- A character that is not in a pattern cuts the search for the pattern. -/
lemma contains_append_stop (hne : pattern ≠ []) (hd : d ∉ pattern) (s t : List Char) :
    contains pattern (s ++ d :: t) = (contains pattern s || contains pattern t) := by
  have htail : d ∉ pattern.tail := fun hmem => hd (List.mem_of_mem_tail hmem)
  unfold contains
  induction s with
  | nil =>
    obtain ⟨p, pattern, rfl⟩ := List.exists_cons_of_ne_nil hne
    have hp : p ≠ d := fun h => hd (h ▸ List.mem_cons_self)
    have hhere : after? (p :: pattern) (d :: t) = none := by rw [after?, if_neg hp]
    simp [cut, hhere]
  | cons c s ih =>
    rw [List.cons_append, cut, ← List.cons_append, after?_append htail hne, cut]
    cases after? pattern (c :: s) with
    | none => simpa only [Option.map_none, Option.isSome_map] using ih
    | some rest => rfl

variable (hne : pattern ≠ []) (hfeed : '\n' ∉ pattern) (hreturn : '\r' ∉ pattern)
include hne hfeed hreturn

lemma lineLocal_mentions : LineLocal (mentions pattern false) where
  nil := rfl
  feed := mentions_append_stop hne hfeed rfl false
  lineReturn s := by
    rw [mentions_append_stop hne hreturn rfl, mentions, Bool.or_false]

lemma lineLocal_contains : LineLocal (contains pattern) where
  nil := by
    rw [contains, cut, if_neg (by simpa using hne)]
    rfl
  feed := contains_append_stop hne hfeed
  lineReturn s := by
    rw [contains_append_stop hne hreturn]
    simp [contains, cut, hne]

end Tests

/-! ### The dialect -/

/-- Whether a source is in the dialect of commands. -/
def IsCommands (s : List Char) : Prop :=
  Tier.ofSource (stripComments s) = .simpleCommand

instance (s : List Char) : Decidable (IsCommands s) :=
  inferInstanceAs (Decidable (_ = _))

/-- The word and the signs that keep a line out of the dialect of commands. -/
def isForeign (l : List Char) : Bool :=
  mentions "task".toList false l ||
    (mentions "function".toList false l || contains ['=', '>'] l)

lemma lineLocal_task : LineLocal (mentions "task".toList false) :=
  lineLocal_mentions (by decide) (by decide) (by decide)

lemma lineLocal_isForeign : LineLocal isForeign := by
  have hfunction : LineLocal (mentions "function".toList false) :=
    lineLocal_mentions (by decide) (by decide) (by decide)
  have harrow : LineLocal (contains ['=', '>']) :=
    lineLocal_contains (by decide) (by decide) (by decide)
  refine ⟨rfl, fun s t => ?_, fun s => ?_⟩
  · unfold isForeign
    rw [lineLocal_task.feed, hfunction.feed, harrow.feed]
    simp only [Bool.or_assoc, Bool.or_left_comm]
  · unfold isForeign
    rw [lineLocal_task.lineReturn, hfunction.lineReturn, harrow.lineReturn]

lemma isCommands_iff (s : List Char) : IsCommands s ↔ (codeLines s).any isForeign = false := by
  have htier : ∀ t, Tier.ofSource t = .simpleCommand ↔ isForeign t = false := by
    intro t
    unfold Tier.ofSource isForeign
    generalize mentions "task".toList false t = task
    generalize mentions "function".toList false t = function
    generalize contains ['=', '>'] t = arrow
    cases task <;> cases function <;> cases arrow <;> decide
  rw [IsCommands, htier, lineLocal_isForeign.stripComments]

/-- The word `task` on a line outside of its comment makes a source one of task blocks. -/
lemma taskDefinition_of_line {s l : List Char} (hl : l ∈ codeLines s)
    (h : mentions "task".toList false l = true) :
    Tier.ofSource (stripComments s) = .taskDefinition := by
  have htask : mentions "task".toList false (stripComments s) = true := by
    rw [lineLocal_task.stripComments]
    exact List.any_eq_true.2 ⟨l, hl, h⟩
  rw [Tier.ofSource, if_pos htask]

end ScriptedNotes.Script
