import ScriptedNotes.Proofs.Page.Characters
import ScriptedNotes.Proofs.Script.SourceLines
import ScriptedNotes.Proofs.Text.Passing

/-!
Marks line by line. A pattern for marks sees no further than the line feed behind the place where it
reads (`Pattern.InLine`). So a scan with it starts anew behind each line feed (`scan_append_feed`),
and replacing its hits rewrites each line by itself (`LineByLine`). This is passed on from one
replacement to the next, whatever the earlier ones have put into the lines, and so all marks of a
text are those of its lines (`marks_stay_in_line`).
-/

namespace ScriptedNotes.Text

variable {α : Type} {p : Pattern α} {a : α} {s rest lexeme mark : List Char}
  {f : List Char → List Char}

/-! ### Patterns that read inside of a line -/

/-- What stands behind a line feed changes nothing in what is read before it, and nothing is read
over it. -/
def Pattern.InLine (p : Pattern α) : Prop :=
  ∀ s t, p (s ++ '\n' :: t) = (p s).map fun (a, rest) => (a, rest ++ '\n' :: t)

lemma Pattern.InLine.feed_not_mem (hp : p.InLine) (h : p (lexeme ++ rest) = some (a, rest)) :
    '\n' ∉ lexeme := by
  intro hmem
  obtain ⟨u, v, rfl⟩ := List.append_of_mem hmem
  rw [List.append_assoc, List.cons_append, hp] at h
  obtain ⟨⟨b, rest'⟩, -, he⟩ := Option.map_eq_some_iff.1 h
  -- what is left would be longer than itself
  have hlength := congrArg (fun found => found.2.length) he
  simp only [List.length_append, List.length_cons] at hlength
  omega

/-- A scan starts anew behind a line feed. -/
theorem scan_append_feed (hp : p.Advances) (hline : p.InLine) (s t : List Char) :
    scan p (s ++ '\n' :: t) = scan p s ++ .plain '\n' :: scan p t := by
  induction s using hp.induct with
  | nil =>
    have hnone : p ([] ++ '\n' :: t) = none := by
      rw [hline, hp.read_nil]
      rfl
    rw [List.nil_append, scan_plain hnone, scan_nil, List.nil_append]
  | plain c s hnone ih =>
    have hnone' : p (c :: (s ++ '\n' :: t)) = none := by
      rw [← List.cons_append, hline, hnone]
      rfl
    rw [List.cons_append, scan_plain hnone', ih, scan_plain hnone, List.cons_append]
  | hit lexeme a rest hlexeme hread ih =>
    have hread' : p (lexeme ++ (rest ++ '\n' :: t)) = some (a, rest ++ '\n' :: t) := by
      rw [← List.append_assoc, hline, hread]
      rfl
    rw [List.append_assoc, scan_hit hlexeme hread', ih, scan_hit hlexeme hread, List.cons_append]

/-- No hit reaches over the end of a line. -/
lemma feed_not_mem_of_hit (hp : p.Advances) (hline : p.InLine) (h : .hit lexeme a ∈ scan p s) :
    '\n' ∉ lexeme := by
  obtain ⟨rest, -, hread⟩ := mem_scan hp h
  exact hline.feed_not_mem hread

/-! ### Texts that are rewritten line by line -/

/-- The text is rewritten line by line, and no line becomes more than one. -/
structure LineByLine (f : List Char → List Char) : Prop where
  append_feed (s t : List Char) : f (s ++ '\n' :: t) = f s ++ '\n' :: f t
  feed_not_mem {s : List Char} : '\n' ∉ s → '\n' ∉ f s

namespace LineByLine

/-- One rewriting after another: each leaves the line feeds where the next one needs them. -/
lemma foldl {fs : List (List Char → List Char)} (hfs : ∀ f ∈ fs, LineByLine f) :
    LineByLine fun s => fs.foldl (fun s f => f s) s := by
  induction fs with
  | nil => exact ⟨fun _ _ => rfl, id⟩
  | cons f fs ih =>
    obtain ⟨hf, hfs⟩ := List.forall_mem_cons.1 hfs
    refine ⟨fun s t => ?_, fun h => (ih hfs).feed_not_mem (hf.feed_not_mem h)⟩
    simp only [List.foldl_cons]
    rw [hf.append_feed]
    exact (ih hfs).append_feed (f s) (f t)

/-- The lines that come out are the lines that go in, each rewritten by itself. -/
theorem pieces_eq (hf : LineByLine f) (s : List Char) : pieces (f s) = (pieces s).map f := by
  induction hn : s.length using Nat.strong_induction_on generalizing s with
  | _ n ih =>
    rcases eq_append_feed s with hs | ⟨l, rest, hl, rfl⟩
    · rw [Script.pieces_of_not_mem hs, Script.pieces_of_not_mem (hf.feed_not_mem hs)]
      rfl
    · have hlt : rest.length < n := by
        rw [← hn, List.length_append, List.length_cons]
        omega
      rw [hf.append_feed, Script.pieces_append_feed, Script.pieces_append_feed,
        Script.pieces_of_not_mem hl, Script.pieces_of_not_mem (hf.feed_not_mem hl),
        ih rest.length hlt rest rfl]
      rfl

end LineByLine

lemma replaceHits_append_feed (hp : p.Advances) (hline : p.InLine) (f : α → List Char)
    (s t : List Char) :
    replaceHits p f (s ++ '\n' :: t) = replaceHits p f s ++ '\n' :: replaceHits p f t := by
  unfold replaceHits
  rw [scan_append_feed hp hline, List.flatMap_append, List.flatMap_cons]
  rfl

/-! ### Reading up to a mark -/

lemma after?_append_feed (hne : mark ≠ []) (hfeed : '\n' ∉ mark) (s t : List Char) :
    after? mark (s ++ '\n' :: t) = (after? mark s).map (· ++ '\n' :: t) := by
  cases s with
  | nil =>
    obtain ⟨d, mark, rfl⟩ := List.exists_cons_of_ne_nil hne
    have hd : d ≠ '\n' := fun h => hfeed (h ▸ List.mem_cons_self)
    exact if_neg hd
  | cons c s => exact Script.after?_append (fun h => hfeed (List.mem_of_mem_tail h)) hne s t

end ScriptedNotes.Text

namespace ScriptedNotes.Page

open Text

variable {mark : List Char}

/-- A mark is looked for up to the end of the line. -/
lemma upTo?_cons (mark : List Char) (c : Char) (s : List Char) :
    upTo? mark (c :: s) =
      match after? mark (c :: s) with
      | some rest => some ([], rest)
      | none =>
        if c = '\n' then none
        else (upTo? mark s).map fun (inside, rest) => (c :: inside, rest) := by
  unfold upTo?
  rw [cut]
  cases after? mark (c :: s) with
  | some rest => rfl
  | none =>
    cases cut mark s with
    | none => simp
    | some found =>
      by_cases hc : c = '\n'
      · simp [hc]
      · by_cases hfeed : '\n' ∈ found.1 <;> simp [Option.filter, hc, Ne.symm hc, hfeed]

section

variable (hne : mark ≠ []) (hfeed : '\n' ∉ mark)
include hne hfeed

lemma inLine_upTo? : Pattern.InLine (upTo? mark) := by
  intro s t
  induction s with
  | nil =>
    -- what is looked for stands behind the line feed, if anywhere
    have hnil : after? mark [] = none := by
      obtain ⟨d, mark, rfl⟩ := List.exists_cons_of_ne_nil hne
      rfl
    rw [List.nil_append, upTo?_cons, ← List.nil_append ('\n' :: t), after?_append_feed hne hfeed,
      hnil]
    simp [upTo?, cut, hne]
  | cons c s ih =>
    rw [List.cons_append, upTo?_cons, ← List.cons_append, after?_append_feed hne hfeed, upTo?_cons,
      ih]
    cases after? mark (c :: s) with
    | some rest => rfl
    | none =>
      by_cases hc : c = '\n'
      · simp [hc]
      · simp only [hc, if_false, Option.map_map]
        rfl

lemma inLine_enclosed : (enclosed mark).InLine := by
  intro s t
  simp only [enclosed, bind, after?_append_feed hne hfeed]
  cases after? mark s with
  | none => rfl
  | some u => exact inLine_upTo? hne hfeed u t

lemma lineByLine_renderEnclosed {tag : String} (hopen : '\n' ∉ ("<" ++ tag ++ ">").toList)
    (hclose : '\n' ∉ ("</" ++ tag ++ ">").toList) : LineByLine (renderEnclosed mark tag) where
  append_feed := replaceHits_append_feed (advances_enclosed hne) (inLine_enclosed hne hfeed) _
  feed_not_mem := not_mem_renderEnclosed hne hopen hclose

end

lemma inLine_link : link.InLine := by
  intro s t
  simp only [link, bind, after?_append_feed (List.cons_ne_nil '[' []) (by decide)]
  cases after? ['['] s with
  | none => rfl
  | some u =>
    simp only [Option.map_some, Option.bind_some]
    rw [inLine_upTo? (by decide) (by decide) u t]
    cases upTo? [']', '('] u with
    | none => rfl
    | some found =>
      simp only [Option.map_some, Option.bind_some]
      rw [inLine_upTo? (by decide) (by decide)]
      cases upTo? [')'] found.2 <;> rfl

lemma lineByLine_renderLinks : LineByLine renderLinks where
  append_feed := replaceHits_append_feed advances_link inLine_link _
  feed_not_mem := not_mem_renderLinks (by decide) (by decide) (by decide)

/-! ### All marks -/

/-- The replacements in the order in which they are made. -/
def passes : List (List Char → List Char) :=
  [renderEnclosed ['*', '*'] "strong", renderEnclosed ['*'] "em", renderEnclosed ['`'] "code",
    renderLinks]

lemma renderInline_eq_foldl (s : List Char) :
    renderInline s = passes.foldl (fun s pass => pass s) s := rfl

lemma lineByLine_of_mem_passes : ∀ pass ∈ passes, LineByLine pass := by
  simp only [passes, List.forall_mem_cons]
  exact ⟨lineByLine_renderEnclosed (by decide) (by decide) (by decide) (by decide),
    lineByLine_renderEnclosed (by decide) (by decide) (by decide) (by decide),
    lineByLine_renderEnclosed (by decide) (by decide) (by decide) (by decide),
    lineByLine_renderLinks, List.forall_mem_nil _⟩

lemma lineByLine_renderInline : LineByLine renderInline := by
  rw [funext renderInline_eq_foldl]
  exact LineByLine.foldl lineByLine_of_mem_passes

/-- **Marks stay in their line.** The marks of two texts with a line feed between them are those of
the one and those of the other, and so it is with each replacement by itself, whatever the lines
are by then. All lines of a text are rewritten each by itself, and what is replaced reaches over no
line feed. -/
theorem marks_stay_in_line (x y : List Char) :
    renderInline (x ++ '\n' :: y) = renderInline x ++ '\n' :: renderInline y ∧
      (∀ pass ∈ passes, pass (x ++ '\n' :: y) = pass x ++ '\n' :: pass y) ∧
      pieces (renderInline x) = (pieces x).map renderInline ∧
      (∀ mark ∈ [['*', '*'], ['*'], ['`']], ∀ lexeme inside,
        .hit lexeme inside ∈ scan (enclosed mark) x → '\n' ∉ lexeme) ∧
      ∀ lexeme found, .hit lexeme found ∈ scan link x → '\n' ∉ lexeme := by
  refine ⟨lineByLine_renderInline.append_feed x y,
    fun pass hpass => (lineByLine_of_mem_passes pass hpass).append_feed x y,
    lineByLine_renderInline.pieces_eq x, fun mark hmark lexeme inside hhit => ?_,
    fun lexeme found hhit => feed_not_mem_of_hit advances_link inLine_link hhit⟩
  have hmarks : ∀ mark ∈ [['*', '*'], ['*'], ['`']], mark ≠ [] ∧ '\n' ∉ mark := by decide
  obtain ⟨hne, hfeed⟩ := hmarks mark hmark
  exact feed_not_mem_of_hit (advances_enclosed hne) (inLine_enclosed hne hfeed) hhit

/-- A star and a bracket are left open at the end of the first line. Their partners stand on the
second one, behind a bold text, and are left as they are. -/
theorem marks_stay_in_line_openLine :
    renderInline "*a [b\n**c** d](e)*".toList =
        "*a [b\n<strong>c</strong> d](e)*".toList ∧
      .hit "**c**".toList ['c'] ∈ scan (enclosed ['*', '*']) "**c** d](e)*".toList ∧
      '\n' ∉ "**c**".toList := by
  have hhit : .hit "**c**".toList ['c'] ∈ scan (enclosed ['*', '*']) "**c** d](e)*".toList := by
    have hread : enclosed ['*', '*'] ("**c**".toList ++ " d](e)*".toList) =
        some (['c'], " d](e)*".toList) := by decide
    rw [show "**c** d](e)*".toList = "**c**".toList ++ " d](e)*".toList from by decide,
      scan_hit (by decide) hread]
    exact List.mem_cons_self
  obtain ⟨hfeed, -⟩ := marks_stay_in_line "*a [b".toList "**c** d](e)*".toList
  obtain ⟨-, -, -, hhits, -⟩ := marks_stay_in_line "**c** d](e)*".toList []
  refine ⟨?_, hhit, hhits ['*', '*'] (by decide) _ _ hhit⟩
  refine (hfeed : renderInline "*a [b\n**c** d](e)*".toList = _).trans ?_
  decide +kernel

end ScriptedNotes.Page
