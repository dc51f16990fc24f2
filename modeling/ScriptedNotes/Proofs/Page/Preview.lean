import Mathlib.Data.List.Infix
import ScriptedNotes.Proofs.Page.Exchange
import ScriptedNotes.Proofs.Page.Scripts
import ScriptedNotes.Proofs.Text.Passing

/-!
The scripts that the preview leaves in a note. It takes a script out when the tag ends its line and
a closing mark below ends its line too; whoever looks for scripts afterwards wants neither. So an
opening that the preview goes by may still begin a script, and there are two ways to it (`Left`):
no closing mark ends its line, or the line of the tag goes on.
-/

namespace ScriptedNotes.Page

open Text

variable {c : Char} {s t u w mark rest lexeme text : List Char}

/-! ### Closing marks -/

lemma behindFirstClosing?_eq_none_iff :
    behindFirstClosing? s = none ↔ ∀ t, t <:+ s → behindClosing? t = none := by
  induction s with
  | nil =>
    refine ⟨fun _ t ht => ?_, fun _ => rfl⟩
    rw [List.suffix_nil.1 ht]
    rfl
  | cons c s ih =>
    rw [behindFirstClosing?, Option.orElse_eq_orElse, Option.orElse_eq_or, Option.or_eq_none_iff,
      ih]
    constructor
    · rintro ⟨hhere, hbelow⟩ t ht
      rcases List.suffix_cons_iff.1 ht with rfl | ht
      · exact hhere
      · exact hbelow t ht
    · exact fun h => ⟨h _ (List.suffix_refl _), fun t ht => h t (ht.trans (List.suffix_cons c s))⟩

lemma exists_of_behindFirstClosing? (h : behindFirstClosing? s = some rest) :
    ∃ t, t <:+ s ∧ behindClosing? t = some rest := by
  induction s with
  | nil => cases h
  | cons c s ih =>
    rw [behindFirstClosing?, Option.orElse_eq_orElse, Option.orElse_eq_or,
      Option.or_eq_some_iff] at h
    rcases h with h | ⟨-, h⟩
    · exact ⟨_, List.suffix_refl _, h⟩
    · obtain ⟨t, ht, hclosing⟩ := ih h
      exact ⟨t, ht.trans (List.suffix_cons c s), hclosing⟩

/-- A closing mark is a beginning of the text, and behind it a line or the text ends. -/
lemma of_behindClosing? (h : behindClosing? s = some rest) :
    rest <:+ s ∧ (rest = [] ∨ ∃ r, rest = '\n' :: r) := by
  obtain ⟨hafter, hend⟩ := Option.filter_eq_some_iff.1 h
  rw [Option.orElse_eq_orElse, Option.orElse_eq_or, Option.or_eq_some_iff] at hafter
  constructor
  · rcases hafter with hafter | ⟨-, hafter⟩ <;>
    · rw [after?_eq_some_iff.1 hafter]
      exact List.suffix_append _ _
  · match rest with
    | [] => exact .inl rfl
    | d :: r => exact .inr ⟨r, by simpa using hend⟩

/-! ### What the preview takes out -/

lemma strippedPattern_eq_some_iff {found : Unit} : strippedPattern s = some (found, rest) ↔
    ∃ mark r, (mark = fenceMark ∨ mark = colonMark) ∧ s = mark ++ scriptTag ++ '\n' :: r ∧
      behindFirstClosing? r = some rest := by
  have hopening : ∀ r, (after? (fenceMark ++ scriptTag ++ ['\n']) s <|>
      after? (colonMark ++ scriptTag ++ ['\n']) s) = some r ↔
      ∃ mark, (mark = fenceMark ∨ mark = colonMark) ∧ s = mark ++ scriptTag ++ '\n' :: r := by
    intro r
    rw [Option.orElse_eq_orElse, Option.orElse_eq_or, Option.or_eq_some_iff, after?_eq_some_iff,
      after?_eq_some_iff]
    constructor
    · rintro (h | ⟨-, h⟩)
      · exact ⟨fenceMark, .inl rfl, by rw [h]; simp⟩
      · exact ⟨colonMark, .inr rfl, by rw [h]; simp⟩
    · rintro ⟨mark, rfl | rfl, rfl⟩
      · exact .inl (by simp)
      · exact .inr ⟨rfl, by simp⟩
  simp only [strippedPattern, bind, Option.bind_eq_some_iff, hopening]
  constructor
  · rintro ⟨r, ⟨mark, hmark, hs⟩, rest', hclosing, he⟩
    cases he
    exact ⟨mark, r, hmark, hs, hclosing⟩
  · rintro ⟨mark, r, hmark, hs, hclosing⟩
    exact ⟨r, ⟨mark, hmark, hs⟩, rest, hclosing, rfl⟩

lemma strippedPattern_eq_none_iff : strippedPattern s = none ↔
    ∀ mark r, mark = fenceMark ∨ mark = colonMark → s = mark ++ scriptTag ++ '\n' :: r →
      behindFirstClosing? r = none := by
  simp only [Option.eq_none_iff_forall_ne_some, Prod.forall, ne_eq, strippedPattern_eq_some_iff]
  constructor
  · intro h mark r hmark hs rest hclosing
    exact h () rest ⟨mark, r, hmark, hs, hclosing⟩
  · rintro h found rest ⟨mark, r, hmark, hs, hclosing⟩
    exact h mark r hmark hs rest hclosing

lemma advances_strippedPattern : strippedPattern.Advances := by
  intro s found rest h
  obtain ⟨mark, r, hmark, rfl, hclosing⟩ := strippedPattern_eq_some_iff.1 h
  obtain ⟨t, ht, hhere⟩ := exists_of_behindFirstClosing? hclosing
  obtain ⟨inside, rfl⟩ := (of_behindClosing? hhere).1.trans ht
  refine ⟨mark ++ scriptTag ++ '\n' :: inside, by simp, by simp⟩

lemma strippedPattern_feed (s : List Char) : strippedPattern ('\n' :: s) = none := by
  rw [strippedPattern_eq_none_iff]
  rintro mark r (rfl | rfl) he <;> cases he

/-- No script that the preview takes out begins inside of mark and tag. -/
lemma strippedPattern_within (hmark : mark = fenceMark ∨ mark = colonMark)
    (hw : w <:+ mark ++ scriptTag) (hne : w ≠ []) (hproper : w ≠ mark ++ scriptTag) :
    strippedPattern (w ++ rest) = none := by
  have hapart : ∀ mark' ∈ [fenceMark, colonMark], ∀ mark ∈ [fenceMark, colonMark],
      ∀ w ∈ (mark ++ scriptTag).tails, w = [] ∨ w = mark ++ scriptTag ∨
        ¬ w <+: mark' ++ scriptTag ∧ ¬ mark' ++ scriptTag <+: w := by
    decide
  rw [strippedPattern_eq_none_iff]
  intro mark' r hmark' he
  have hboth := hapart mark' (by simpa using hmark') mark (by simpa using hmark) w
    ((List.mem_tails _ _).2 hw)
  rcases hboth with h | h | ⟨hleft, hright⟩
  · exact (hne h).elim
  · exact (hproper h).elim
  · rcases List.prefix_or_prefix_of_prefix ⟨rest, he⟩ (List.prefix_append _ _) with h | h
    · exact (hleft h).elim
    · exact (hright h).elim

/-! ### What is left of a note -/

lemma stripScripts_eq (s : List Char) : stripScripts s = remainder strippedPattern s := rfl

/-- An opening that the preview goes by stays where it is. -/
lemma stripScripts_opening (hmark : mark = fenceMark ∨ mark = colonMark)
    (h : strippedPattern (mark ++ scriptTag ++ rest) = none) :
    stripScripts (mark ++ scriptTag ++ rest) = mark ++ scriptTag ++ stripScripts rest := by
  refine remainder_append fun v hv hne => ?_
  by_cases hwhole : v = mark ++ scriptTag
  · rw [hwhole]
    exact h
  · exact strippedPattern_within hmark hv hne hwhole

/-- Where the preview goes by, a beginning of what is left without a line feed has been there
before: behind a script that is taken out a line ends. -/
lemma exists_append_of_stripScripts (hnone : strippedPattern t = none) (hw : '\n' ∉ w)
    (h : stripScripts t = w ++ u) : ∃ rest, t = w ++ rest ∧ stripScripts rest = u := by
  induction w generalizing t with
  | nil => exact ⟨t, rfl, h⟩
  | cons c w ih =>
    rw [List.mem_cons, not_or] at hw
    match t with
    | [] =>
      rw [stripScripts_eq, remainder_nil] at h
      cases h
    | d :: t =>
      rw [stripScripts_eq, remainder_plain hnone, List.cons_append] at h
      obtain ⟨rfl, hrest⟩ := List.cons.inj h
      match w with
      | [] => exact ⟨t, rfl, hrest⟩
      | e :: w =>
        have hnext : strippedPattern t = none := by
          rw [Option.eq_none_iff_forall_ne_some]
          rintro ⟨found, rest⟩ hread
          obtain ⟨lexeme, hlexeme, rfl⟩ := advances_strippedPattern hread
          rw [remainder_hit hlexeme hread] at hrest
          obtain ⟨mark, r, -, -, hclosing⟩ := strippedPattern_eq_some_iff.1 hread
          obtain ⟨t', -, hhere⟩ := exists_of_behindFirstClosing? hclosing
          rcases (of_behindClosing? hhere).2 with rfl | ⟨r', rfl⟩
          · rw [remainder_nil] at hrest
            cases hrest
          · rw [remainder_plain (strippedPattern_feed r')] at hrest
            exact hw.2 ((List.cons.inj hrest).1 ▸ List.mem_cons_self)
        obtain ⟨rest, rfl, hleft⟩ := ih hnext hw.2 hrest
        exact ⟨rest, rfl, hleft⟩

/-- Below which nothing closes a script for the preview, the preview takes nothing out. -/
lemma stripScripts_eq_self (h : behindFirstClosing? s = none) : stripScripts s = s := by
  refine remainder_eq_self fun t ht => strippedPattern_eq_none_iff.2 ?_
  rintro mark r - rfl
  refine behindFirstClosing?_eq_none_iff.2 fun u hu => ?_
  exact behindFirstClosing?_eq_none_iff.1 h u
    ((hu.trans ((List.suffix_cons '\n' r).trans (List.suffix_append _ _))).trans ht)

/-- How a script that begins with the mark and the tag stays in the preview, by what follows the
tag. -/
inductive Left (mark : List Char) : List Char → Prop
  /-- The tag ends its line. Below some line begins with the mark, but no mark is all of its
  line. -/
  | unclosed {r : List Char} : behindFirstClosing? r = none → '\n' :: mark <:+: r →
    Left mark ('\n' :: r)
  /-- The line of the tag goes on, but nothing except blanks is left of it, and some line below
  begins with the mark. -/
  | widened {rest blanks r : List Char} : rest.head? ≠ some '\n' →
    (∀ c ∈ blanks, isSpace c = true) → stripScripts rest = blanks ++ '\n' :: r →
    '\n' :: mark <:+: r → Left mark rest

/-- A script begins where the preview went by an opening that it leaves. -/
lemma beginsScript_stripScripts_iff (hmark : mark = fenceMark ∨ mark = colonMark)
    (hnone : strippedPattern t = none) :
    BeginsScript mark (stripScripts t) ↔
      ∃ rest, t = mark ++ scriptTag ++ rest ∧ Left mark rest := by
  constructor
  · rintro ⟨blanks, r, hblanks, he, hclosed⟩
    have hopening : '\n' ∉ mark ++ scriptTag := by rcases hmark with rfl | rfl <;> decide
    obtain ⟨rest, rfl, hrest⟩ := exists_append_of_stripScripts hnone hopening he
    refine ⟨rest, rfl, ?_⟩
    by_cases hfeed : rest.head? = some '\n'
    · obtain ⟨r', rfl⟩ : ∃ r', rest = '\n' :: r' := by
        match rest with
        | d :: r' => exact ⟨r', by simpa using hfeed⟩
      have hend := strippedPattern_eq_none_iff.1 hnone mark r' hmark rfl
      refine .unclosed hend ?_
      -- nothing is taken out below, so the line that closes the script has been there
      rw [stripScripts_eq, remainder_plain (strippedPattern_feed r'), ← stripScripts_eq,
        stripScripts_eq_self hend] at hrest
      match blanks with
      | [] => exact (List.cons.inj hrest).2 ▸ hclosed
      | d :: blanks =>
        rw [(List.cons.inj hrest).2]
        exact hclosed.trans ((List.suffix_cons '\n' r).trans (List.suffix_append _ _)).isInfix
    · exact .widened hfeed hblanks hrest hclosed
  · rintro ⟨rest, rfl, hleft⟩
    rw [stripScripts_opening hmark hnone]
    cases hleft with
    | @unclosed r hend hclosed =>
      refine ⟨[], r, List.forall_mem_nil _, ?_, hclosed⟩
      rw [stripScripts_eq, remainder_plain (strippedPattern_feed r), ← stripScripts_eq,
        stripScripts_eq_self hend]
      rfl
    | @widened _ blanks r _ hblanks he hclosed =>
      exact ⟨blanks, r, hblanks, by rw [he], hclosed⟩

lemma scriptBlocks_eq_nil_iff :
    scriptBlocks s = [] ↔ ∀ t, t <:+ s → scriptPattern t = none := by
  rw [← finds_eq_nil_iff advances_scriptPattern, scriptBlocks, List.map_eq_nil_iff,
    List.zipIdx_eq_nil_iff]

/-- **No script is left in a note just when the preview goes by no opening that it leaves.** -/
theorem scriptBlocks_stripScripts_eq_nil_iff : scriptBlocks (stripScripts text) = [] ↔
    ∀ mark rest, mark = fenceMark ∨ mark = colonMark →
      Passes strippedPattern text (mark ++ scriptTag ++ rest) → ¬ Left mark rest := by
  rw [scriptBlocks_eq_nil_iff]
  constructor
  · rintro h mark rest hmark hpasses hleft
    have hne : mark ++ scriptTag ++ rest ≠ [] := by
      rcases hmark with rfl | rfl <;> exact List.cons_ne_nil _ _
    obtain ⟨c, t, he⟩ := List.exists_cons_of_ne_nil hne
    have hnone := hpasses.read_eq_none
    have hbegins := (beginsScript_stripScripts_iff hmark hnone).2 ⟨rest, rfl, hleft⟩
    rw [he] at hpasses hnone hbegins
    have hsuffix := (cons_suffix_remainder_iff advances_strippedPattern).2 ⟨t, hpasses, rfl⟩
    rw [← remainder_plain hnone] at hsuffix
    have hread := scriptPattern_eq_none_iff.1 (h _ hsuffix)
    rcases hmark with rfl | rfl
    · exact hread.1 hbegins
    · exact hread.2 hbegins
  · intro h v hv
    match v with
    | [] => exact advances_scriptPattern.read_nil
    | c :: u =>
      obtain ⟨t, hpasses, rfl⟩ := (cons_suffix_remainder_iff advances_strippedPattern).1 hv
      have hnone := hpasses.read_eq_none
      have hnot : ∀ mark, mark = fenceMark ∨ mark = colonMark →
          ¬ BeginsScript mark (stripScripts (c :: t)) := by
        intro mark hmark hbegins
        obtain ⟨rest, he, hleft⟩ := (beginsScript_stripScripts_iff hmark hnone).1 hbegins
        rw [he] at hpasses
        exact h mark rest hmark hpasses hleft
      rw [← remainder_plain hnone, scriptPattern_eq_none_iff]
      exact ⟨hnot _ (.inl rfl), hnot _ (.inr rfl)⟩

/-! ### The preview -/

/-- The scripts of a note are the fragments in the vault of its page. -/
lemma exists_entries_vaulted (text : List Char) : ∃ fences : List CodeFence,
    (vaulted text).2.entries =
      ((scriptBlocks text).map fun b => .fragment (scriptHtml b)) ++ fences.map .fence := by
  have hstash : ∀ (blocks : List ScriptBlock) (v : Vault),
      (replies (fun (v : Vault) b => v.stash (scriptHtml b)) v blocks).2.entries =
        v.entries ++ blocks.map fun b => .fragment (scriptHtml b) := by
    intro blocks
    induction blocks with
    | nil => exact fun v => (List.append_nil _).symm
    | cons b blocks ih =>
      intro v
      exact (ih _).trans (List.append_assoc _ _ _)
  obtain ⟨S, hS⟩ := exists_scripted text
  obtain ⟨F, -, hextract, -⟩ := exists_fenced (withoutScripts text).2 (withoutScripts text).1
  refine ⟨F.tail.map fun piece => piece.1.kept, ?_⟩
  have hscripts : (withoutScripts text).2.entries =
      (scriptBlocks text).map fun b => .fragment (scriptHtml b) := by
    have hreplaced := hS.replaceScripts_eq (fun (v : Vault) b => v.stash (scriptHtml b)) ⟨[]⟩
    unfold withoutScripts
    rw [hreplaced]
    exact hstash _ _
  rw [vaulted, hextract, hscripts, List.map_map]
  rfl

/-- **What the preview leaves of scripts.** Looking for scripts in what the preview keeps of a note
finds none just when the preview goes by no opening that it leaves. The preview of a note that is
not blank is the page of what it keeps, and the fragments in the vault of that page are those of the
scripts that are found. -/
theorem preview_leaves_scripts_out_iff (text : List Char) :
    (scriptBlocks (stripScripts text) = [] ↔
      ∀ mark rest, mark = fenceMark ∨ mark = colonMark →
        Passes strippedPattern text (mark ++ scriptTag ++ rest) → ¬ Left mark rest) ∧
    (allBlank text = false →
      preview text = (renderNote (stripScripts text)).html ∧
      ∃ fences : List CodeFence, (vaulted (stripScripts text)).2.entries =
        ((scriptBlocks (stripScripts text)).map fun b => .fragment (scriptHtml b)) ++
          fences.map .fence) := by
  refine ⟨scriptBlocks_stripScripts_eq_nil_iff, fun hblank => ⟨?_, exists_entries_vaulted _⟩⟩
  rw [preview, if_neg (by simp [hblank])]

/-- A note with a script that ends its lines. -/
def tidyNote : List Char :=
  "# Plan\n```automation\nprint 1\n```\n".toList

theorem preview_leaves_scripts_out_iff_tidyNote :
    scriptBlocks tidyNote ≠ [] ∧ allBlank tidyNote = false ∧
      (∀ mark rest, mark = fenceMark ∨ mark = colonMark →
        Passes strippedPattern tidyNote (mark ++ scriptTag ++ rest) → ¬ Left mark rest) ∧
      preview tidyNote = (renderNote (stripScripts tidyNote)).html := by
  obtain ⟨hleft, hpage⟩ := preview_leaves_scripts_out_iff tidyNote
  have hnone : scriptBlocks (stripScripts tidyNote) = [] := by
    rw [scriptBlocks, List.map_eq_nil_iff, List.zipIdx_eq_nil_iff]
    decide +kernel
  have hblank : allBlank tidyNote = false := by
    decide
  exact ⟨by decide +kernel, hblank, hleft.1 hnone, (hpage hblank).1⟩

/-- A script with a blank behind its tag. -/
def spacedScript : List Char :=
  "```automation \nprint 1\n```".toList

/-- The preview takes nothing out of it and shows the script. -/
theorem spacedScript_left_in_preview :
    allBlank spacedScript = false ∧ scriptBlocks (stripScripts spacedScript) ≠ [] ∧
      preview spacedScript = scriptHtml (.ofSource 0 "print 1".toList) :=
  ⟨by decide +kernel, by decide +kernel, by decide +kernel⟩

end ScriptedNotes.Page
