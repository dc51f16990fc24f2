import ScriptedNotes.Proofs.Page.Layout

/-!
The seam between two blocks. Line ends, runs of line feeds and blocks are all found by looking one
or two characters around, so the blank lines between two texts part whatever is done with them: the
texts are laid out each by itself, however many line feeds stand between them
(`blocks_render_apart`).
-/

namespace ScriptedNotes.Page

open Text

variable {a b s t : List Char} {c d : Char} {n run : Nat}

/-! ### Line ends -/

lemma unixLines_cons (hc : c ≠ '\r') (s : List Char) : unixLines (c :: s) = c :: unixLines s := by
  rw [unixLines]
  rintro t rfl
  exact absurd rfl hc

/-- A character that is no part of a line end parts the line ends around it. -/
lemma unixLines_append_cons (hfeed : c ≠ '\n') (hreturn : c ≠ '\r') (s t : List Char) :
    unixLines (s ++ c :: t) = unixLines s ++ c :: unixLines t := by
  induction s using unixLines.induct with
  | case1 s ih => exact congrArg ('\n' :: ·) ih
  | case2 d s hd ih =>
    have hd' : ∀ u, d = '\r' → s ++ c :: t = '\n' :: u → False := by
      rintro u rfl he
      cases s with
      | nil => exact hfeed (List.cons.inj he).1
      | cons e s =>
        obtain rfl := (List.cons.inj he).1
        exact hd s rfl rfl
    rw [List.cons_append, unixLines, unixLines, ih, List.cons_append]
    · exact hd
    · exact hd'
  | case3 => exact unixLines_cons hreturn t

lemma unixLines_feeds (n : Nat) (s : List Char) :
    unixLines (List.replicate n '\n' ++ s) = List.replicate n '\n' ++ unixLines s := by
  induction n with
  | zero => rfl
  | succ n ih =>
    rw [List.replicate_succ, List.cons_append, unixLines_cons (by decide), ih, List.cons_append]

/-! ### Runs of line feeds -/

lemma squeeze_cons (hc : c ≠ '\n') (run : Nat) (s : List Char) :
    squeeze run (c :: s) = c :: squeeze 0 s :=
  if_neg hc

/-- A character that is no line feed ends the run before it. -/
lemma squeeze_append_cons (hc : c ≠ '\n') (s t : List Char) :
    squeeze run (s ++ c :: t) = squeeze run s ++ c :: squeeze 0 t := by
  induction s generalizing run with
  | nil => exact squeeze_cons hc run t
  | cons d s ih =>
    rw [List.cons_append, squeeze, squeeze]
    split_ifs <;> rw [ih] <;> rfl

lemma squeeze_full (n : Nat) (s : List Char) :
    squeeze 2 (List.replicate n '\n' ++ s) = squeeze 2 s := by
  induction n with
  | zero => rfl
  | succ n ih => exact ih

/-- Of two line feeds or more two are left. -/
lemma squeeze_feeds (hn : 2 ≤ n) (hc : c ≠ '\n') (s : List Char) :
    squeeze 0 (List.replicate n '\n' ++ c :: s) = '\n' :: '\n' :: squeeze 0 (c :: s) := by
  obtain ⟨n, rfl⟩ := Nat.exists_eq_add_of_le' hn
  have htwo : squeeze 0 (List.replicate (n + 2) '\n' ++ c :: s) =
      '\n' :: '\n' :: squeeze 2 (List.replicate n '\n' ++ c :: s) := rfl
  rw [htwo, squeeze_full, squeeze_cons hc, squeeze_cons hc]

/-! ### Texts without blanks around them -/

/-- The text begins with a character that is none of the blanks that the layout skips. -/
def Begins (s : List Char) : Prop :=
  ∃ c t, s = c :: t ∧ isSpace c = false

/-- The text ends with a character that is none of the blanks that the layout skips. -/
def Ends (s : List Char) : Prop :=
  ∃ t c, s = t ++ [c] ∧ isSpace c = false

lemma Begins.append (h : Begins s) (t : List Char) : Begins (s ++ t) := by
  obtain ⟨c, u, rfl, hc⟩ := h
  exact ⟨c, u ++ t, rfl, hc⟩

lemma Ends.append (h : Ends t) (s : List Char) : Ends (s ++ t) := by
  obtain ⟨u, c, rfl, hc⟩ := h
  exact ⟨s ++ u, c, (List.append_assoc s u [c]).symm, hc⟩

lemma lineEnd_ne_of_not_isSpace (h : isSpace c = false) : c ≠ '\n' ∧ c ≠ '\r' := by
  constructor <;> rintro rfl <;> cases h

lemma normalize_of_begins (h : Begins s) : normalize s = squeeze 0 (unixLines s) := by
  obtain ⟨c, t, rfl, hc⟩ := h
  obtain ⟨hfeed, hreturn⟩ := lineEnd_ne_of_not_isSpace hc
  unfold normalize
  dsimp only
  rw [unixLines_cons hreturn, squeeze_cons hfeed, behindBlankLines, if_neg (by simp [hc])]
  rfl

/-- Two texts are brought to their normal form each by itself. -/
lemma normalize_seam (hbegins : Begins a) (hends : Ends a) (hb : Begins b) (hn : 2 ≤ n) :
    normalize (a ++ List.replicate n '\n' ++ b) = normalize a ++ '\n' :: '\n' :: normalize b := by
  rw [List.append_assoc, normalize_of_begins (hbegins.append _), normalize_of_begins hbegins,
    normalize_of_begins hb]
  obtain ⟨s, c, rfl, hc⟩ := hends
  obtain ⟨d, t, rfl, hd⟩ := hb
  obtain ⟨hc, hc'⟩ := lineEnd_ne_of_not_isSpace hc
  obtain ⟨hd, hd'⟩ := lineEnd_ne_of_not_isSpace hd
  rw [List.append_assoc, List.singleton_append, unixLines_append_cons hc hc',
    unixLines_append_cons hc hc', unixLines_feeds, unixLines_cons hd', squeeze_append_cons hc,
    squeeze_append_cons hc, squeeze_feeds hn hd, List.append_assoc]
  rfl

lemma begins_normalize (h : Begins s) : Begins (normalize s) := by
  rw [normalize_of_begins h]
  obtain ⟨c, t, rfl, hc⟩ := h
  obtain ⟨hfeed, hreturn⟩ := lineEnd_ne_of_not_isSpace hc
  rw [unixLines_cons hreturn, squeeze_cons hfeed]
  exact ⟨c, _, rfl, hc⟩

lemma ends_normalize (h : Begins s) (h' : Ends s) : Ends (normalize s) := by
  rw [normalize_of_begins h]
  obtain ⟨t, c, rfl, hc⟩ := h'
  obtain ⟨hfeed, hreturn⟩ := lineEnd_ne_of_not_isSpace hc
  rw [unixLines_append_cons hfeed hreturn, squeeze_append_cons hfeed]
  exact ⟨_, c, rfl, hc⟩

/-! ### Blocks -/

lemma pushFront_append {ss ts : List (List Char)} (h : ss ≠ []) :
    pushFront c (ss ++ ts) = pushFront c ss ++ ts := by
  obtain ⟨first, rest, rfl⟩ := List.exists_cons_of_ne_nil h
  rfl

lemma splitBlocksFrom_ne_nil (inGap : Bool) (s : List Char) : splitBlocksFrom inGap s ≠ [] :=
  (Cuts.splitBlocksFrom inGap s).ne_nil

lemma splitBlocksFrom_cons (hc : c ≠ '\n') (inGap : Bool) (s : List Char) :
    splitBlocksFrom inGap (c :: s) = pushFront c (splitBlocksFrom false s) := by
  rw [splitBlocksFrom.eq_def]
  exact if_neg hc

lemma splitBlocksFrom_feed (hs : ∀ t, s = '\n' :: t → False) :
    splitBlocksFrom false ('\n' :: s) = pushFront '\n' (splitBlocksFrom false s) := by
  rw [splitBlocksFrom, if_pos rfl, if_neg Bool.false_ne_true]
  exact hs

lemma splitBlocksFrom_feeds (s : List Char) :
    splitBlocksFrom false ('\n' :: '\n' :: s) = [] :: splitBlocksFrom true s := by
  rw [splitBlocksFrom, if_pos rfl, if_neg Bool.false_ne_true]

/-- Behind a character that is no line feed two of them end a block, whatever came before. -/
lemma splitBlocksFrom_seam (hc : c ≠ '\n') (inGap : Bool) (s : List Char) (hb : Begins b) :
    splitBlocksFrom inGap (s ++ c :: '\n' :: '\n' :: b) =
      splitBlocksFrom inGap (s ++ [c]) ++ splitBlocks b := by
  induction inGap, s using splitBlocksFrom.induct with
  | case1 inGap =>
    obtain ⟨d, t, rfl, hd⟩ := hb
    have hd' := (lineEnd_ne_of_not_isSpace hd).1
    unfold splitBlocks
    rw [List.nil_append, List.nil_append, splitBlocksFrom_cons hc, splitBlocksFrom_cons hc,
      splitBlocksFrom_feeds, splitBlocksFrom_cons hd', splitBlocksFrom_cons hd']
    rfl
  | case2 s ih =>
    rw [List.cons_append, splitBlocksFrom.eq_def, List.cons_append, splitBlocksFrom.eq_def]
    exact ih
  | case3 inGap hgap s ih =>
    rw [Bool.not_eq_true] at hgap
    subst hgap
    rw [List.cons_append, List.cons_append, splitBlocksFrom_feeds, ih, List.cons_append,
      List.cons_append, splitBlocksFrom_feeds, List.cons_append]
  | case4 inGap hgap s hs ih =>
    rw [Bool.not_eq_true] at hgap
    subst hgap
    have hs' : ∀ u t, s ++ c :: u = '\n' :: t → False := by
      intro u t he
      cases s with
      | nil => exact hc (List.cons.inj he).1
      | cons d s => exact hs s (congrArg (· :: s) (List.cons.inj he).1)
    rw [List.cons_append, splitBlocksFrom_feed (hs' _), ih, List.cons_append,
      splitBlocksFrom_feed (hs' _), pushFront_append (splitBlocksFrom_ne_nil _ _)]
  | case5 inGap d s hd ih =>
    rw [List.cons_append, splitBlocksFrom_cons hd, ih, List.cons_append, splitBlocksFrom_cons hd,
      pushFront_append (splitBlocksFrom_ne_nil _ _)]

/-- The blocks of two texts are those of the one and those of the other. -/
lemma splitBlocks_seam (ha : Ends a) (hb : Begins b) :
    splitBlocks (a ++ '\n' :: '\n' :: b) = splitBlocks a ++ splitBlocks b := by
  obtain ⟨s, c, rfl, hc⟩ := ha
  rw [List.append_assoc]
  exact splitBlocksFrom_seam (lineEnd_ne_of_not_isSpace hc).1 false s hb

lemma join_append {sep : List Char} {ss ts : List (List Char)} (hs : ss ≠ []) (ht : ts ≠ []) :
    join sep (ss ++ ts) = join sep ss ++ sep ++ join sep ts := by
  unfold join
  obtain ⟨t, ts, rfl⟩ := List.exists_cons_of_ne_nil ht
  induction ss with
  | nil => exact absurd rfl hs
  | cons s ss ih =>
    cases ss with
    | nil => rw [List.singleton_append, List.intercalate_cons_cons, List.intercalate_singleton]
    | cons r ss =>
      rw [List.cons_append, List.cons_append, List.intercalate_cons_cons, ← List.cons_append,
        ih (List.cons_ne_nil r ss), List.intercalate_cons_cons]
      simp only [List.append_assoc]

lemma renderBlocks_seam (hbegins : Begins a) (hends : Ends a) (hb : Begins b) (hn : 2 ≤ n) :
    renderBlocks (a ++ List.replicate n '\n' ++ b) =
      renderBlocks a ++ ['\n', '\n'] ++ renderBlocks b := by
  unfold renderBlocks
  rw [normalize_seam hbegins hends hb hn,
    splitBlocks_seam (ends_normalize hbegins hends) (begins_normalize hb), List.map_append]
  refine join_append ?_ ?_ <;> rw [ne_eq, List.map_eq_nil_iff] <;> exact splitBlocksFrom_ne_nil _ _

lemma renderBlocks_blankLine (hbegins : Begins a) (hends : Ends a) (hb : Begins b) :
    renderBlocks (a ++ ['\n', '\n'] ++ b) =
      renderBlocks a ++ ['\n', '\n'] ++ renderBlocks b := by
  have hseam := renderBlocks_seam hbegins hends hb (le_refl 2)
  rwa [show List.replicate 2 '\n' = ['\n', '\n'] from rfl] at hseam

/-- **Texts with blank lines between them are laid out each by itself**, however many line feeds
stand between them; so what stands between two others does not touch how they are laid out. -/
theorem blocks_render_apart (hbegins : Begins a) (hends : Ends a) (hb : Begins b) :
    renderBlocks (a ++ ['\n', '\n'] ++ b) = renderBlocks a ++ ['\n', '\n'] ++ renderBlocks b ∧
      (∀ n, 2 ≤ n →
        renderBlocks (a ++ List.replicate n '\n' ++ b) =
          renderBlocks (a ++ ['\n', '\n'] ++ b)) ∧
      ∀ x, Begins x → Ends x →
        renderBlocks (a ++ ['\n', '\n'] ++ x ++ ['\n', '\n'] ++ b) =
          renderBlocks a ++ ['\n', '\n'] ++ renderBlocks x ++ ['\n', '\n'] ++ renderBlocks b := by
  have hpair := renderBlocks_blankLine hbegins hends hb
  refine ⟨hpair, fun n hn => ?_, fun x hx hx' => ?_⟩
  · rw [hpair, renderBlocks_seam hbegins hends hb hn]
  · have hfront : Begins (a ++ ['\n', '\n'] ++ x) := (hbegins.append _).append _
    rw [renderBlocks_blankLine hfront (hx'.append _) hb, renderBlocks_blankLine hbegins hends hx]

/-- A table whose lines end in two ways, and blank lines between blocks of other kinds. -/
def unevenNote : List Char :=
  "| a |\r\n|---|\r\n| 1 |\n\n\n\n- x\r\n \n> y |".toList

theorem blocks_render_apart_unevenNote :
    Begins unevenNote ∧ Ends unevenNote ∧ Begins "# Title\n\n\n---\n".toList ∧
      Begins "1. one".toList ∧ Ends "1. one".toList ∧
      renderBlocks (unevenNote ++ ['\n', '\n'] ++ "# Title\n\n\n---\n".toList) =
        renderBlocks unevenNote ++ ['\n', '\n'] ++ renderBlocks "# Title\n\n\n---\n".toList ∧
      renderBlocks (unevenNote ++ List.replicate 5 '\n' ++ "# Title\n\n\n---\n".toList) =
        renderBlocks (unevenNote ++ ['\n', '\n'] ++ "# Title\n\n\n---\n".toList) ∧
      renderBlocks (unevenNote ++ ['\n', '\n'] ++ "1. one".toList ++ ['\n', '\n'] ++
          "# Title\n\n\n---\n".toList) =
        renderBlocks unevenNote ++ ['\n', '\n'] ++ renderBlocks "1. one".toList ++
          ['\n', '\n'] ++ renderBlocks "# Title\n\n\n---\n".toList := by
  have hbegins : Begins unevenNote := ⟨_, _, rfl, rfl⟩
  have hends : Ends unevenNote := ⟨unevenNote.dropLast, '|', rfl, rfl⟩
  have hb : Begins "# Title\n\n\n---\n".toList := ⟨_, _, rfl, rfl⟩
  have hx : Begins "1. one".toList := ⟨_, _, rfl, rfl⟩
  have hx' : Ends "1. one".toList := ⟨"1. on".toList, 'e', rfl, rfl⟩
  obtain ⟨hpair, hrun, hinner⟩ := blocks_render_apart hbegins hends hb
  exact ⟨hbegins, hends, hb, hx, hx', hpair, hrun 5 (by decide), hinner _ hx hx'⟩

end ScriptedNotes.Page
