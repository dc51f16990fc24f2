import ScriptedNotes.Proofs.Page.VaultContent
import ScriptedNotes.Proofs.Text.LineEnds

/-!
Notes with carriage returns. A note whose line feeds have returns before them has the same scripts,
and the blocks of its page are the same; but no fence of it is seen. So its page is the same but for
the returns just when the note has no fence that goes into the vault (`lineEndsIgnored_iff`).
-/

namespace ScriptedNotes.Page

open Text

variable {c : Char} {s t text : List Char}

/-! ### Scripts -/

lemma behindBlankLines_withReturns (s : List Char) :
    behindBlankLines (withReturns s) = (behindBlankLines s).map withReturns := by
  induction s with
  | nil => rfl
  | cons c s ih =>
    by_cases hc : c = '\n'
    · subst hc
      have hspaces : isSpace '\n' = true ∧ isSpace '\r' = true := by decide
      rw [withReturns_feed, behindBlankLines, if_pos hspaces.2, behindBlankLines,
        if_pos hspaces.1, behindBlankLines, if_pos hspaces.1, ih]
      simp
    · rw [withReturns_cons hc, behindBlankLines, behindBlankLines, ih, if_neg hc, if_neg hc]
      split <;> simp

lemma scriptBetween_withReturns {mark : List Char} (hfeed : '\n' ∉ mark) (hreturn : '\r' ∉ mark)
    (s : List Char) :
    scriptBetween mark (withReturns s) =
      (scriptBetween mark s).map fun (source, rest) =>
        (withReturns source ++ ['\r'], withReturns rest) := by
  have htag : '\n' ∉ scriptTag ∧ '\r' ∉ scriptTag := by decide
  have hafter := after?_withReturns (List.not_mem_append hfeed htag.1)
    (List.not_mem_append hreturn htag.2) s
  unfold scriptBetween
  rw [hafter]
  cases after? (mark ++ scriptTag) s with
  | none => rfl
  | some rest =>
    show (behindBlankLines (withReturns rest)).findSome? (cut ('\n' :: mark)) =
      ((behindBlankLines rest).findSome? (cut ('\n' :: mark))).map _
    rw [behindBlankLines_withReturns, List.findSome?_map, List.map_findSome?]
    exact congrArg (List.findSome? · _) (funext (cut_withReturns hfeed hreturn))

/-- The source of a script has one more return at its end. -/
lemma scriptPattern_withReturns (s : List Char) :
    scriptPattern (withReturns s) =
      (scriptPattern s).map fun (source, rest) =>
        (withReturns source ++ ['\r'], withReturns rest) := by
  unfold scriptPattern
  rw [scriptBetween_withReturns (by decide) (by decide),
    scriptBetween_withReturns (by decide) (by decide)]
  cases scriptBetween fenceMark s <;> rfl

lemma scriptPattern_eq_none (hfence : c ≠ '`') (hcolon : c ≠ ':') (s : List Char) :
    scriptPattern (c :: s) = none := by
  simp [scriptPattern, scriptBetween, fenceMark, colonMark, after?, Ne.symm hfence,
    Ne.symm hcolon]

lemma compile_withReturns (h : '\r' ∉ s) : Script.compile (withReturns s) = Script.compile s := by
  have hstrip : Script.stripComments (withReturns s) = Script.stripComments s := by
    unfold Script.stripComments
    rw [lines_withReturns h]
  unfold Script.compile
  rw [hstrip]

lemma ofSource_withReturns (number : Nat) (h : '\r' ∉ s) :
    ScriptBlock.ofSource number (withReturns s ++ ['\r']) =
      { ScriptBlock.ofSource number s with source := withReturns (trim s) } := by
  unfold ScriptBlock.ofSource
  rw [trim_concat_of_isBlank (by decide), trim_withReturns,
    compile_withReturns fun hmem => h (trim_subset s hmem)]

lemma returned_escape (h : Returned s t) : Returned (escape s) (escape t) := by
  induction h with
  | nil => exact .nil
  | char c _ ih => exact (Returned.refl (escapeChar c)).append ih
  | feed _ ih => exact .feed ih

/-- Fragments of one script with more or fewer returns differ in these. -/
lemma returned_scriptHtml {b : ScriptBlock} {source : List Char} (h : Returned source b.source) :
    Returned (scriptHtml { b with source }) (scriptHtml b) := by
  have hescaped := returned_escape h
  unfold scriptHtml
  dsimp only
  split
  all_goals
    iterate 4 refine .append ?_ (.refl _)
    exact .append (.refl _) hescaped

/-! ### The vault -/

/-- Both vaults have fragments only, and those of the first are those of the second with some
returns. -/
def Vault.Returned (v w : Vault) : Prop :=
  List.Forall₂ (fun d e => ∃ g h, d = .fragment g ∧ e = .fragment h ∧ Text.Returned g h)
    v.entries w.entries

namespace Vault.Returned

variable {v w : Vault}

lemma size_eq (h : v.Returned w) : v.size = w.size := List.Forall₂.length_eq h

lemma stash {g k : List Char} (h : v.Returned w) (hhtml : Text.Returned g k) :
    (v.stash g).2.Returned (w.stash k).2 :=
  List.rel_append h (.cons ⟨g, k, rfl, rfl, hhtml⟩ .nil)

end Vault.Returned

lemma lineEnd_not_mem_label (hc : isLabelChar c = false) (y : Vaulted × Nat) : c ∉ label y := by
  intro hmem
  rw [isLabelChar_of_mem_label hmem] at hc
  cases hc

/-- Two scans have taken in as many scripts, and their vaults are the same but for returns. -/
structure SameScripts (first second : List ScriptBlock × Vault) : Prop where
  count : first.1.length = second.1.length
  vault : first.2.Returned second.2

section

variable {first second : List ScriptBlock × Vault} {source : List Char}

/-- One more script with returns. -/
lemma stashScript_withReturns (h : SameScripts first second) (hsource : '\r' ∉ source)
    (lexeme lexeme' : List Char) :
    (stashScript first lexeme (withReturns source ++ ['\r'])).1 =
        withReturns (stashScript second lexeme' source).1 ∧
      SameScripts (stashScript first lexeme (withReturns source ++ ['\r'])).2
        (stashScript second lexeme' source).2 := by
  unfold stashScript
  rw [ofSource_withReturns _ hsource, h.count]
  dsimp only
  refine ⟨?_, ?_, h.vault.stash (returned_scriptHtml (.of_withReturns _))⟩
  · show placeholder "fragment".toList first.2.size =
      withReturns (placeholder "fragment".toList second.2.size)
    rw [h.vault.size_eq, withReturns_of_not_mem]
    exact lineEnd_not_mem_label (by decide) (.fragment [], second.2.size)
  · simp only [List.length_append, List.length_singleton, h.count]

/-- The scripts of a note with returns go into the vault like those of the note without. -/
lemma replaceWith_stashScript_withReturns (h : SameScripts first second) (htext : '\r' ∉ text) :
    (replaceWith stashScript first (scan scriptPattern (withReturns text))).1 =
        withReturns (replaceWith stashScript second (scan scriptPattern text)).1 ∧
      SameScripts (replaceWith stashScript first (scan scriptPattern (withReturns text))).2
        (replaceWith stashScript second (scan scriptPattern text)).2 := by
  induction text using advances_scriptPattern.induct generalizing first second with
  | nil =>
    rw [withReturns_nil, scan_nil]
    exact ⟨rfl, h⟩
  | plain c s hnone ih =>
    obtain ⟨hrest, hsame⟩ := ih h fun hmem => htext (List.mem_cons_of_mem c hmem)
    rw [scan_plain hnone]
    by_cases hc : c = '\n'
    · rw [hc, withReturns_feed, scan_plain (scriptPattern_eq_none (by decide) (by decide) _),
        scan_plain (scriptPattern_eq_none (by decide) (by decide) _)]
      exact ⟨congrArg (fun s => '\r' :: '\n' :: s) hrest, hsame⟩
    · have hnone' : scriptPattern (c :: withReturns s) = none := by
        rw [← withReturns_cons hc, scriptPattern_withReturns, hnone]
        rfl
      rw [withReturns_cons hc, scan_plain hnone']
      exact ⟨(congrArg (c :: ·) hrest).trans (withReturns_cons hc _).symm, hsame⟩
  | hit lexeme source rest hlexeme hread ih =>
    rw [List.mem_append, not_or] at htext
    have hsource : '\r' ∉ source := by
      obtain ⟨mark, inner, -, hinner, he⟩ := scriptPattern_eq_append hread
      obtain rfl := List.append_cancel_right he
      exact fun hmem => htext.1 (List.mem_append_left _ (List.mem_append_right _ (hinner hmem)))
    have hlexeme' : withReturns lexeme ≠ [] := fun he => hlexeme (withReturns_eq_nil_iff.1 he)
    have hread' : scriptPattern (withReturns lexeme ++ withReturns rest) =
        some (withReturns source ++ ['\r'], withReturns rest) := by
      rw [← withReturns_append, scriptPattern_withReturns, hread]
      rfl
    rw [withReturns_append, scan_hit hlexeme' hread', scan_hit hlexeme hread]
    obtain ⟨hhere, hnext⟩ := stashScript_withReturns h hsource (withReturns lexeme) lexeme
    obtain ⟨hrest, hsame⟩ := ih hnext htext.2
    refine ⟨?_, hsame⟩
    simp only [replaceWith, withReturns_append, hhere, hrest]

end

lemma sameScripts_empty : SameScripts ([], ⟨[]⟩) ([], ⟨[]⟩) := ⟨rfl, .nil⟩

lemma withoutScripts_withReturns (h : '\r' ∉ text) :
    (withoutScripts (withReturns text)).1 = withReturns (withoutScripts text).1 ∧
      (withoutScripts (withReturns text)).2.Returned (withoutScripts text).2 := by
  obtain ⟨htext, hsame⟩ := replaceWith_stashScript_withReturns sameScripts_empty h
  exact ⟨htext, hsame.vault⟩

lemma length_scripts_withReturns (h : '\r' ∉ text) :
    (renderNote (withReturns text)).scripts.length = (renderNote text).scripts.length :=
  (replaceWith_stashScript_withReturns sameScripts_empty h).2.count

/-! ### Fences -/

lemma fences_eq_nil {v : Vault} (h : ∀ entry ∈ v.entries, ∃ html, entry = .fragment html) :
    v.fences = [] := by
  refine List.filterMap_eq_nil_iff.2 fun found hfound => ?_
  obtain ⟨⟨entry, n⟩, hslot, rfl⟩ := List.mem_map.1 hfound
  obtain ⟨html, rfl⟩ := h entry (List.fst_mem_of_mem_zipIdx hslot)
  rfl

/-- A fence begins with the line of its tag, so a return before the line feed hides it. -/
lemma not_hit_withReturns {lexeme tag body : List Char} :
    .hit lexeme (tag, body) ∉ scan fencePattern (withReturns s) := by
  intro hmem
  obtain ⟨rfl, hinside, htag⟩ := fenceText_of_hit hmem
  obtain ⟨front, c, hfront⟩ : ∃ front c, fenceMark ++ tag = front ++ [c] :=
    ⟨_, _, (List.dropLast_concat_getLast (by simp [fenceMark])).symm⟩
  have hfeed : [c, '\n'] <:+: fenceText tag body := by
    refine ⟨front, body ++ fenceMark, ?_⟩
    unfold fenceText
    rw [← List.append_assoc fenceMark tag, hfront]
    simp
  obtain rfl := eq_return_of_infix (hfeed.trans hinside)
  have hreturn : '\r' ∈ fenceMark ++ tag := by
    rw [hfront]
    exact List.mem_append_right _ List.mem_cons_self
  rcases List.mem_append.1 hreturn with hmem | hmem
  · exact absurd hmem (by decide)
  · exact absurd (htag _ hmem) (by decide)

lemma vaulted_withReturns (h : '\r' ∉ text) :
    vaulted (withReturns text) =
      (withReturns (withoutScripts text).1, (withoutScripts (withReturns text)).2) := by
  obtain ⟨htext, -⟩ := withoutScripts_withReturns h
  unfold vaulted
  rw [htext, extract_eq_self]
  exact fun lexeme tag body hmem => (not_hit_withReturns hmem).elim

lemma vaulted_of_fences_eq_nil (h : (vaulted text).2.fences = []) :
    vaulted text = withoutScripts text := by
  unfold vaulted
  rw [extract_eq_self]
  intro lexeme tag body hmem
  by_contra htag
  obtain ⟨id, hid⟩ := Vault.exists_mem_fences
    (mem_entries_of_hit (v := (withoutScripts text).2) htag hmem)
  rw [← extract_eq] at hid
  change (id, _) ∈ (vaulted text).2.fences at hid
  rw [h] at hid
  cases hid

/-- No fence is seen in a note with returns. -/
lemma fences_withReturns (h : '\r' ∉ text) : (vaulted (withReturns text)).2.fences = [] := by
  obtain ⟨-, hvault⟩ := withoutScripts_withReturns h
  rw [vaulted_withReturns h]
  refine fences_eq_nil fun entry hentry => ?_
  obtain ⟨n, hn, rfl⟩ := List.getElem_of_mem hentry
  obtain ⟨g, -, he, -, -⟩ := List.Forall₂.get hvault hn
    ((List.Forall₂.length_eq hvault) ▸ hn)
  exact ⟨g, he⟩

/-! ### The page -/

/-- Emptying vaults that are the same but for returns into such texts. -/
lemma returned_restore {v w : Vault} (hvault : v.Returned w) (h : Returned s t) :
    Returned (v.restore s) (w.restore t) := by
  rw [restore_eq, restore_eq]
  obtain ⟨ds⟩ := v
  obtain ⟨es⟩ := w
  unfold Vault.Returned at hvault
  dsimp only at hvault ⊢
  generalize 0 = k
  induction hvault generalizing k s t with
  | nil => exact h
  | cons hentry _ ih =>
    obtain ⟨g, k, rfl, rfl, hhtml⟩ := hentry
    rw [List.zipIdx_cons, List.zipIdx_cons, List.foldl_cons, List.foldl_cons]
    exact ih (h.replaceFirst (lineEnd_not_mem_label (by decide) _)
      (lineEnd_not_mem_label (by decide) _) hhtml) _

/-- What it is for a page not to depend on the line ends of its note. -/
structure LineEndsIgnored (text : List Char) : Prop where
  /-- The page of the note with returns is the page of the note but for them. -/
  html : (renderNote (withReturns text)).html.filter (· ≠ '\r') = (renderNote text).html
  fences : (vaulted (withReturns text)).2.fences.length = (vaulted text).2.fences.length
  scripts : (renderNote (withReturns text)).scripts.length = (renderNote text).scripts.length

/-- **The line ends of a note do not matter for its page just when no fence goes into the
vault.** -/
theorem lineEndsIgnored_iff (h : '\r' ∉ text) :
    LineEndsIgnored text ↔ (vaulted text).2.fences = [] := by
  constructor
  · intro hignored
    have hlength := hignored.fences
    rw [fences_withReturns h] at hlength
    exact List.eq_nil_of_length_eq_zero hlength.symm
  · intro hfences
    refine ⟨?_, by rw [fences_withReturns h, hfences], length_scripts_withReturns h⟩
    have hreturn : isOrdinary '\r' = false ∧ '\r' ≠ reserved := by decide
    obtain ⟨htext, hvault⟩ := withoutScripts_withReturns h
    have hclean := (not_mem_withoutScripts hreturn.1 hreturn.2 h).1
    have hlaidOut : laidOut (withReturns text) = laidOut text := by
      have hnormal : normalize (withReturns (withoutScripts text).1) =
          normalize (withoutScripts text).1 := by
        unfold normalize
        rw [unixLines_withReturns hclean, unixLines_of_not_mem hclean]
      unfold laidOut
      rw [vaulted_withReturns h, vaulted_of_fences_eq_nil hfences]
      unfold renderBlocks
      rw [hnormal]
    refine Returned.filter_eq ?_ (not_mem_page hreturn.1 hreturn.2 h)
    rw [renderNote_html, renderNote_html, hlaidOut, vaulted_withReturns h]
    rw [vaulted_of_fences_eq_nil hfences]
    exact returned_restore hvault (.refl _)

/-- A note with a script and a table. -/
def scriptNote : List Char :=
  ("# Plan\n\n:::automation\nprint \"hi\"\n:::\n\n| step | done |\n|---|:-:|\n" ++
    "| *first* | yes |\n\n> quoted\n> twice\n").toList

theorem lineEndsIgnored_scriptNote : '\r' ∉ scriptNote ∧ LineEndsIgnored scriptNote := by
  have hunix : '\r' ∉ scriptNote := by decide +kernel
  exact ⟨hunix, (lineEndsIgnored_iff hunix).2 (List.isEmpty_iff.1 (by decide +kernel))⟩

/-- A note that is one fence. -/
def fencedNote : List Char :=
  "```rust\nlet x = 1;\n```".toList

/-- With returns the fence is laid out as paragraphs. -/
theorem fencedNote_depends_on_lineEnds :
    '\r' ∉ fencedNote ∧ ¬ LineEndsIgnored fencedNote ∧
      (renderNote (withReturns fencedNote)).html =
        "<p><code></code>`rust</p>\n<p>let x = 1;</p>\n<p><code></code>`</p>".toList := by
  refine ⟨by decide +kernel, fun h => absurd h.html (by decide +kernel), by decide +kernel⟩

end ScriptedNotes.Page
