import ScriptedNotes.Page.Render
import ScriptedNotes.Proofs.Page.Layout
import ScriptedNotes.Proofs.Text.Scanning

/-!
How scripts and fences go into the vault. `Stashed N s t` says that `t` is `s` with placeholders in
the place of some of its lexemes, those of the entries in `N`; each such lexeme is without a
placeholder itself. Then `t` holds the entries that `s` held and the new ones (`Stashed.holds`), and
what is left of the note in `t` has been in `s` (`Stashed.infix_of_bare`).
-/

namespace ScriptedNotes.Page

open Text

variable {M N : Multiset (Vaulted × Nat)} {c : Char} {s t w : List Char}

/-- A piece of text with no placeholder in it, and none that goes on beyond it. -/
structure Bare (w : List Char) : Prop where
  clean : reserved ∉ w
  head : ∃ c l, w = c :: l ∧ isLabelChar c = false
  last : ∃ l c, w = l ++ [c] ∧ isLabelChar c = false

/-- A text between two marks of one kind is bare when it is clean. -/
lemma Bare.between {mark inner : List Char} (hmark : mark = fenceMark ∨ mark = colonMark)
    (hclean : reserved ∉ mark ++ inner ++ mark) : Bare (mark ++ inner ++ mark) := by
  refine ⟨hclean, ?_, ?_⟩
  · rcases hmark with rfl | rfl
    · exact ⟨'`', _, rfl, by decide⟩
    · exact ⟨':', _, rfl, by decide⟩
  · rcases hmark with rfl | rfl
    · exact ⟨fenceMark ++ inner ++ ['`', '`'], '`', by simp [fenceMark], by decide⟩
    · exact ⟨colonMark ++ inner ++ [':', ':'], ':', by simp [colonMark], by decide⟩

/-- A text and the same text with placeholders of some entries for lexemes of it. -/
inductive Stashed : Multiset (Vaulted × Nat) → List Char → List Char → Prop
  | nil : Stashed 0 [] []
  | keep {N : Multiset (Vaulted × Nat)} {s t : List Char} (c : Char) :
    Stashed N s t → Stashed N (c :: s) (c :: t)
  | slot {N : Multiset (Vaulted × Nat)} {s t lexeme : List Char} (x : Vaulted × Nat) :
    Bare lexeme → Stashed N s t → Stashed (x ::ₘ N) (lexeme ++ s) (label x ++ t)

namespace Stashed

lemma keeps (w : List Char) (h : Stashed N s t) : Stashed N (w ++ s) (w ++ t) := by
  induction w with
  | nil => exact h
  | cons c w ih => exact .keep c ih

/-- What belongs to a placeholder is kept. -/
lemma of_label (hw : ∀ c ∈ w, isLabelChar c = true) (h : Stashed N (w ++ s) t) :
    ∃ u, t = w ++ u ∧ Stashed N s u := by
  induction w generalizing t with
  | nil => exact ⟨t, rfl, h⟩
  | cons c w ih =>
    obtain ⟨hc, hw⟩ := List.forall_mem_cons.1 hw
    rw [List.cons_append] at h
    generalize he : c :: (w ++ s) = l at h
    cases h with
    | nil => cases he
    | keep _ h =>
      cases he
      obtain ⟨u, rfl, hu⟩ := ih hw h
      exact ⟨u, rfl, hu⟩
    | slot x hbare h =>
      obtain ⟨d, l, rfl, hd⟩ := hbare.head
      rw [← (List.cons.inj he).1, hc] at hd
      cases hd

/-- **The new text holds the old entries and the new ones.** -/
theorem holds (hs : Holds M s) (h : Stashed N s t) : Holds (M + N) t := by
  induction hn : s.length using Nat.strong_induction_on generalizing s t M N with
  | _ n ih =>
    cases h with
    | nil =>
      rw [hs.eq_zero_iff.2 List.not_mem_nil]
      exact .nil
    | @keep N s t c h =>
      rcases hs.cons_cases with ⟨hc, hs⟩ | ⟨x, M, s', rfl, he, hs'⟩
      · exact .char hc (ih s.length (by rw [← hn, List.length_cons]; omega) hs h rfl)
      · have hkeep := Stashed.keep c h
        have hlt : s'.length < n := by
          obtain ⟨l, hl, -⟩ := label_eq_cons x
          rw [← hn, he, hl, List.length_append, List.length_cons]
          omega
        rw [he] at hkeep
        obtain ⟨u, hu, hstashed⟩ := hkeep.of_label fun c => isLabelChar_of_mem_label
        rw [hu, Multiset.cons_add]
        exact .slot x (ih s'.length hlt hs' hstashed rfl)
    | @slot N s t lexeme x hbare h =>
      obtain ⟨l, c, rfl, hc⟩ := hbare.last
      obtain ⟨K, L, rfl, hK, hL⟩ := hs.split (List.cons_ne_nil _ _) (by simpa using hc)
      have hclean : reserved ∉ l := fun hmem => hbare.clean (List.mem_append_left _ hmem)
      obtain rfl := hK.eq_zero_iff.2 hclean
      have hlt : s.length < n := by
        rw [← hn]
        simp only [List.length_append, List.length_singleton]
        omega
      rw [zero_add, Multiset.add_cons]
      exact .slot x (ih s.length hlt hL h rfl)

/-- A bare beginning of the new text has been there before. -/
lemma prefix_of_bare (hclean : reserved ∉ w) (hlast : ∀ c ∈ w.getLast?, isLabelChar c = false)
    (hw : w <+: t) (h : Stashed N s t) : w <+: s := by
  induction h generalizing w with
  | nil => exact hw
  | keep c _ ih =>
    match w with
    | [] => exact List.nil_prefix
    | [d] =>
      obtain ⟨rfl, -⟩ := List.cons_prefix_cons.1 hw
      exact List.cons_prefix_cons.2 ⟨rfl, List.nil_prefix⟩
    | d :: e :: w =>
      obtain ⟨rfl, hrest⟩ := List.cons_prefix_cons.1 hw
      rw [List.getLast?_cons_cons] at hlast
      exact List.cons_prefix_cons.2
        ⟨rfl, ih (fun hmem => hclean (List.mem_cons_of_mem _ hmem)) hlast hrest⟩
  | slot x _ _ ih =>
    rcases List.prefix_or_prefix_of_prefix hw (List.prefix_append (label x) _) with hw | hlabel
    · cases hend : w.getLast? with
      | none =>
        rw [List.getLast?_eq_none_iff.1 hend]
        exact List.nil_prefix
      | some c =>
        have hc := hlast c hend
        rw [isLabelChar_of_mem_label (hw.subset (List.mem_of_getLast? hend))] at hc
        cases hc
    · have hmem : reserved ∈ label x := by
        rw [← List.count_pos_iff, count_label]
        exact Nat.one_pos
      exact (hclean (hlabel.subset hmem)).elim

lemma infix_of_append (hw : Bare w) {before : List Char} (hstart : before ++ w <+: t)
    (h : Stashed N s t) : w <:+: s := by
  have hlast : ∀ c ∈ w.getLast?, isLabelChar c = false := by
    obtain ⟨l, c, rfl, hc⟩ := hw.last
    intro d hd
    rw [List.getLast?_concat, Option.mem_some_iff] at hd
    rwa [← hd]
  induction h generalizing before with
  | nil =>
    rw [List.prefix_nil, List.append_eq_nil_iff] at hstart
    obtain rfl := hstart.2
    exact List.nil_infix
  | keep c h ih =>
    match before with
    | [] => exact (prefix_of_bare hw.clean hlast hstart (.keep c h)).isInfix
    | d :: before => exact List.infix_cons (ih (List.cons_prefix_cons.1 hstart).2)
  | @slot N s t lexeme x _ _ ih =>
    -- The piece begins behind the placeholder, since its first character is in none.
    rcases List.prefix_or_prefix_of_prefix ((List.prefix_append before w).trans hstart)
        (List.prefix_append (label x) t) with ⟨l, hl⟩ | ⟨l, rfl⟩
    · rw [← hl, List.append_assoc, List.prefix_append_right_inj] at hstart
      match l with
      | [] =>
        have hrest : w <:+: s := ih (show [] ++ w <+: t from hstart)
        exact hrest.trans (List.suffix_append lexeme s).isInfix
      | d :: l =>
        obtain ⟨c, w, rfl, hc⟩ := hw.head
        obtain ⟨rfl, -⟩ := List.cons_prefix_cons.1 hstart
        have hmem : c ∈ label x := hl ▸ List.mem_append_right before List.mem_cons_self
        rw [isLabelChar_of_mem_label hmem] at hc
        cases hc
    · rw [List.append_assoc, List.prefix_append_right_inj] at hstart
      exact (ih hstart).trans (List.suffix_append lexeme s).isInfix

/-- **A bare piece of the new text has been in the old one.** -/
theorem infix_of_bare (hw : Bare w) (hinside : w <:+: t) (h : Stashed N s t) : w <:+: s := by
  obtain ⟨before, behind, rfl⟩ := hinside
  exact infix_of_append hw (List.prefix_append _ _) h

end Stashed

/-! ### The vault -/

lemma Vault.slots_add (v : Vault) (entry : Vaulted) :
    (v.add entry).2.slots = (entry, v.size) ::ₘ v.slots := by
  show (↑(v.entries ++ [entry]).zipIdx : Multiset (Vaulted × Nat)) = _
  rw [List.zipIdx_append, ← Multiset.coe_add, add_comm, Nat.zero_add]
  rfl

/-- Replacing hits one after another puts entries into the vault that a state has, and their
placeholders into the text, if each replacement either does so or leaves the hit as it is. Which
entries a hit may give is said by `Gives`. -/
theorem stashed_replaceWith {α β : Type} (vaultOf : β → Vault) (Gives : α → Vaulted → Prop)
    (f : β → List Char → α → List Char × β) (ps : List (Piece α))
    (hf : ∀ lexeme a, .hit lexeme a ∈ ps → ∀ state,
      (f state lexeme a).1 = lexeme ∧ vaultOf (f state lexeme a).2 = vaultOf state ∨
      Bare lexeme ∧ ∃ entry, Gives a entry ∧ (f state lexeme a).1 = ((vaultOf state).add entry).1 ∧
        vaultOf (f state lexeme a).2 = ((vaultOf state).add entry).2) (state : β) :
    ∃ N, Stashed N (ps.flatMap Piece.text) (replaceWith f state ps).1 ∧
      (vaultOf (replaceWith f state ps).2).slots = (vaultOf state).slots + N ∧
      ∀ x ∈ N, ∃ lexeme a, .hit lexeme a ∈ ps ∧ Gives a x.1 := by
  induction ps generalizing state with
  | nil => exact ⟨0, .nil, (add_zero _).symm, fun x hx => (Multiset.notMem_zero x hx).elim⟩
  | cons piece ps ih =>
    have hrest := fun lexeme a hmem => hf lexeme a (List.mem_cons_of_mem piece hmem)
    match piece with
    | .plain c =>
      obtain ⟨N, hN, hslots, hgives⟩ := ih hrest state
      refine ⟨N, .keep c hN, hslots, fun x hx => ?_⟩
      obtain ⟨lexeme, a, hmem, hx⟩ := hgives x hx
      exact ⟨lexeme, a, List.mem_cons_of_mem _ hmem, hx⟩
    | .hit lexeme a =>
      obtain ⟨N, hN, hslots, hgives⟩ := ih hrest (f state lexeme a).2
      have hlater : ∀ x ∈ N, ∃ lexeme' a',
          .hit lexeme' a' ∈ .hit lexeme a :: ps ∧ Gives a' x.1 := by
        intro x hx
        obtain ⟨lexeme', a', hmem, hx⟩ := hgives x hx
        exact ⟨lexeme', a', List.mem_cons_of_mem _ hmem, hx⟩
      rcases hf lexeme a List.mem_cons_self state with
        ⟨hhere, hvault⟩ | ⟨hbare, entry, hentry, hhere, hvault⟩
      · rw [hvault] at hslots
        refine ⟨N, ?_, hslots, hlater⟩
        show Stashed N (lexeme ++ _) ((f state lexeme a).1 ++ _)
        rw [hhere]
        exact hN.keeps lexeme
      · rw [hvault, Vault.slots_add] at hslots
        refine ⟨(entry, (vaultOf state).size) ::ₘ N, ?_, ?_, ?_⟩
        · show Stashed _ (lexeme ++ _) ((f state lexeme a).1 ++ _)
          rw [hhere]
          exact .slot (entry, (vaultOf state).size) hbare hN
        · rw [Multiset.add_cons, ← Multiset.cons_add]
          exact hslots
        · intro x hx
          rcases Multiset.mem_cons.1 hx with rfl | hx
          · exact ⟨lexeme, a, List.mem_cons_self, hentry⟩
          · exact hlater x hx

lemma Vault.exists_mem_slots {v : Vault} {entry : Vaulted} (h : entry ∈ v.entries) :
    ∃ n, (entry, n) ∈ v.slots := by
  obtain ⟨n, hn, rfl⟩ := List.getElem_of_mem h
  exact ⟨n, Multiset.mem_coe.2 (List.mk_mem_zipIdx_iff_getElem?.2 (List.getElem?_eq_getElem hn))⟩

/-! ### Scripts -/

lemma scriptBetween_eq_append {mark source rest : List Char}
    (h : scriptBetween mark s = some (source, rest)) :
    ∃ blanks, s = mark ++ (scriptTag ++ blanks ++ source ++ ['\n']) ++ mark ++ rest := by
  simp only [scriptBetween, bind, Option.bind_eq_some_iff] at h
  obtain ⟨t, ht, hfind⟩ := h
  obtain ⟨u, hu, hcut⟩ := List.exists_of_findSome?_eq_some hfind
  obtain ⟨blanks, hblanks, -⟩ := eq_append_of_mem_behindBlankLines hu
  refine ⟨blanks, ?_⟩
  rw [after?_eq_some_iff.1 ht, hblanks, cut_eq_some hcut]
  simp

/-- A script stands between two marks of one kind. -/
lemma scriptPattern_eq_append {source rest : List Char}
    (h : scriptPattern s = some (source, rest)) :
    ∃ mark inner, (mark = fenceMark ∨ mark = colonMark) ∧ source ⊆ inner ∧
      s = mark ++ inner ++ mark ++ rest := by
  have hsub : ∀ blanks, source ⊆ scriptTag ++ blanks ++ source ++ ['\n'] := by
    intro blanks c hc
    simp [hc]
  unfold scriptPattern at h
  cases hfence : scriptBetween fenceMark s with
  | some found =>
    rw [hfence] at h
    cases h
    obtain ⟨blanks, he⟩ := scriptBetween_eq_append hfence
    exact ⟨fenceMark, _, .inl rfl, hsub blanks, he⟩
  | none =>
    rw [hfence] at h
    obtain ⟨blanks, he⟩ := scriptBetween_eq_append h
    exact ⟨colonMark, _, .inr rfl, hsub blanks, he⟩

lemma advances_scriptPattern : scriptPattern.Advances := by
  intro s source rest h
  obtain ⟨mark, inner, hmark, -, he⟩ := scriptPattern_eq_append h
  refine ⟨mark ++ inner ++ mark, ?_, he⟩
  rcases hmark with rfl | rfl <;> exact List.cons_ne_nil _ _

/-- Puts the scripts of a note into an empty vault. -/
def withoutScripts (text : List Char) : List Char × Vault :=
  let (text, _, vault) := replaceScripts (fun (v : Vault) b => v.stash (scriptHtml b)) ⟨[]⟩ text
  (text, vault)

/-- The text of a note without its scripts and fences, and the vault that these are in. -/
def vaulted (text : List Char) : List Char × Vault :=
  (withoutScripts text).2.extract (withoutScripts text).1

/-- The page of a note before its vault is emptied. -/
def laidOut (text : List Char) : List Char :=
  renderInline (renderBlocks (vaulted text).1)

lemma renderNote_html (text : List Char) :
    (renderNote text).html = (vaulted text).2.restore (laidOut text) := rfl

/-- What is done with one script. -/
def stashScript (state : List ScriptBlock × Vault) (_ : List Char) (source : List Char) :
    List Char × List ScriptBlock × Vault :=
  let block := ScriptBlock.ofSource state.1.length source
  let (html, vault) := state.2.stash (scriptHtml block)
  (html, state.1 ++ [block], vault)

lemma withoutScripts_eq (text : List Char) :
    withoutScripts text =
      ((replaceWith stashScript ([], ⟨[]⟩) (scan scriptPattern text)).1,
        (replaceWith stashScript ([], ⟨[]⟩) (scan scriptPattern text)).2.2) := rfl

lemma bare_script {lexeme source text : List Char} (h : reserved ∉ text)
    (hmem : .hit lexeme source ∈ scan scriptPattern text) : Bare lexeme ∧ source ⊆ text := by
  obtain ⟨rest, hsuffix, hread⟩ := mem_scan advances_scriptPattern hmem
  obtain ⟨mark, inner, hmark, hsource, he⟩ := scriptPattern_eq_append hread
  obtain rfl := List.append_cancel_right he
  have hsub : mark ++ inner ++ mark ⊆ text := fun c hc =>
    hsuffix.subset (List.mem_append_left rest hc)
  refine ⟨.between hmark fun hr => h (hsub hr), fun c hc => hsub ?_⟩
  exact List.mem_append_left _ (List.mem_append_right _ (hsource hc))

/-- **Every script of a clean note goes into the vault**, as a fragment made of its source. -/
theorem stashed_withoutScripts {text : List Char} (h : reserved ∉ text) :
    Stashed (withoutScripts text).2.slots text (withoutScripts text).1 ∧
      ∀ entry ∈ (withoutScripts text).2.entries, ∃ number source, source ⊆ text ∧
        entry = .fragment (scriptHtml (.ofSource number source)) := by
  obtain ⟨N, hN, hslots, hgives⟩ := stashed_replaceWith Prod.snd
    (fun source entry => ∃ number, entry = .fragment (scriptHtml (.ofSource number source)))
    stashScript (scan scriptPattern text)
    (fun lexeme source hmem state => .inr ⟨(bare_script h hmem).1, _, ⟨_, rfl⟩, rfl, rfl⟩)
    ([], ⟨[]⟩)
  have hempty : Vault.slots ⟨[]⟩ = 0 := rfl
  rw [flatMap_text_scan advances_scriptPattern] at hN
  rw [hempty, zero_add] at hslots
  rw [withoutScripts_eq]
  refine ⟨by rwa [hslots], fun entry hentry => ?_⟩
  obtain ⟨n, hn⟩ := Vault.exists_mem_slots hentry
  rw [hslots] at hn
  obtain ⟨lexeme, source, hmem, number, he⟩ := hgives _ hn
  exact ⟨number, source, (bare_script h hmem).2, he⟩

/-! ### Fences -/

lemma fencePattern_eq_append {tag body rest : List Char}
    (h : fencePattern s = some ((tag, body), rest)) :
    s = fenceMark ++ (tag ++ '\n' :: body) ++ fenceMark ++ rest ∧ ∀ c ∈ tag, isWord c = true := by
  simp only [fencePattern, bind, Option.bind_eq_some_iff] at h
  obtain ⟨t, ht, h⟩ := h
  split at h
  · next u hu =>
    simp only [Option.bind_eq_some_iff, pure, Option.some.injEq, Prod.mk.injEq, Prod.exists] at h
    obtain ⟨body, rest, hcut, ⟨rfl, rfl⟩, rfl⟩ := h
    refine ⟨?_, fun c hc => List.mem_takeWhile_imp hc⟩
    have htag : t = t.takeWhile isWord ++ '\n' :: u := by
      rw [← hu, List.takeWhile_append_dropWhile]
    generalize t.takeWhile isWord = tag at htag
    rw [after?_eq_some_iff.1 ht, htag, cut_eq_some hcut]
    simp
  · cases h

lemma advances_fencePattern : fencePattern.Advances := by
  rintro s ⟨tag, body⟩ rest h
  exact ⟨_, by simp [fenceMark], (fencePattern_eq_append h).1⟩

/-- The fence that a tag and a body stand in. -/
def fenceText (tag body : List Char) : List Char :=
  fenceMark ++ (tag ++ '\n' :: body) ++ fenceMark

lemma fenceText_of_hit {lexeme tag body : List Char}
    (hmem : .hit lexeme (tag, body) ∈ scan fencePattern s) :
    lexeme = fenceText tag body ∧ lexeme <:+: s ∧ ∀ c ∈ tag, isWord c = true := by
  obtain ⟨rest, hsuffix, hread⟩ := mem_scan advances_fencePattern hmem
  obtain ⟨he, htag⟩ := fencePattern_eq_append hread
  exact ⟨List.append_cancel_right he,
    (List.prefix_append lexeme rest).isInfix.trans hsuffix.isInfix, htag⟩

/-- A fence with clean code is clean all over. -/
lemma bare_fence {tag body : List Char} (htag : ∀ c ∈ tag, isWord c = true)
    (hcode : reserved ∉ (CodeFence.ofMatch tag body).code) : Bare (fenceText tag body) := by
  have hbody : reserved ∉ body := by
    intro hmem
    refine hcode ?_
    show reserved ∈ if body.getLast? = some '\n' then body.dropLast else body
    split_ifs with hlast
    · rw [← List.dropLast_append_getLast? '\n' hlast, List.mem_append, List.mem_singleton] at hmem
      exact hmem.resolve_right (by decide)
    · exact hmem
  refine .between (.inl rfl) fun hmem => ?_
  have hmark : reserved ∉ fenceMark := by decide
  rcases List.mem_append.1 hmem with hmem | hmem
  · rcases List.mem_append.1 hmem with hmem | hmem
    · exact hmark hmem
    · rcases List.mem_append.1 hmem with hmem | hmem
      · exact absurd (htag _ hmem) (by decide)
      · exact hbody ((List.mem_cons.1 hmem).resolve_left (by decide))
  · exact hmark hmem

/-- What is done with one fence. -/
def stashFence (v : Vault) (lexeme : List Char) (found : List Char × List Char) :
    List Char × Vault :=
  if found.1 = scriptTag then (lexeme, v) else v.add (.fence (.ofMatch found.1 found.2))

lemma extract_eq (v : Vault) (s : List Char) :
    v.extract s = replaceWith stashFence v (scan fencePattern s) := rfl

/-- No entry comes in where every fence is one of a script. -/
lemma extract_eq_self {v : Vault} {s : List Char}
    (h : ∀ lexeme tag body, .hit lexeme (tag, body) ∈ scan fencePattern s → tag = scriptTag) :
    v.extract s = (s, v) := by
  have hkept : ∀ ps : List (Piece (List Char × List Char)),
      (∀ lexeme tag body, .hit lexeme (tag, body) ∈ ps → tag = scriptTag) →
      replaceWith stashFence v ps = (ps.flatMap Piece.text, v) := by
    intro ps
    induction ps with
    | nil => exact fun _ => rfl
    | cons piece ps ih =>
      intro hps
      have hrest := ih fun lexeme tag body hmem => hps lexeme tag body (List.mem_cons_of_mem _ hmem)
      cases piece with
      | plain c => rw [replaceWith, hrest, List.flatMap_cons]; rfl
      | hit lexeme found =>
        obtain ⟨tag, body⟩ := found
        have hhere : stashFence v lexeme (tag, body) = (lexeme, v) :=
          if_pos (hps lexeme tag body List.mem_cons_self)
        rw [replaceWith, hhere]
        dsimp only
        rw [hrest, List.flatMap_cons]
        rfl
  rw [extract_eq, hkept _ h, flatMap_text_scan advances_fencePattern]

lemma mem_entries_of_mem {ps : List (Piece (List Char × List Char))} {v : Vault} {entry : Vaulted}
    (h : entry ∈ v.entries) : entry ∈ (replaceWith stashFence v ps).2.entries := by
  induction ps generalizing v with
  | nil => exact h
  | cons piece ps ih =>
    match piece with
    | .plain c => exact ih h
    | .hit lexeme found =>
      show entry ∈ (replaceWith stashFence (stashFence v lexeme found).2 ps).2.entries
      refine ih ?_
      unfold stashFence
      split_ifs
      · exact h
      · exact List.mem_append_left _ h

/-- Every fence that is not a script goes into the vault. -/
lemma mem_entries_of_hit {ps : List (Piece (List Char × List Char))} {v : Vault}
    {lexeme tag body : List Char} (htag : tag ≠ scriptTag) (h : .hit lexeme (tag, body) ∈ ps) :
    .fence (.ofMatch tag body) ∈ (replaceWith stashFence v ps).2.entries := by
  induction ps generalizing v with
  | nil => cases h
  | cons piece ps ih =>
    rcases List.mem_cons.1 h with rfl | hmem
    · show _ ∈ (replaceWith stashFence (stashFence v lexeme (tag, body)).2 ps).2.entries
      refine mem_entries_of_mem ?_
      unfold stashFence
      rw [if_neg htag]
      exact List.mem_append_right _ List.mem_cons_self
    · match piece with
      | .plain c => exact ih hmem
      | .hit lexeme' found => exact ih hmem

/-- **Every fence goes into the vault with its text**, if the code of none has a placeholder. -/
theorem stashed_extract {v : Vault} {s : List Char}
    (hclean : ∀ fence, .fence fence ∈ (v.extract s).2.entries → reserved ∉ fence.code) :
    ∃ N, Stashed N s (v.extract s).1 ∧ (v.extract s).2.slots = v.slots + N ∧
      ∀ x ∈ N, ∃ tag body, (∀ c ∈ tag, isWord c = true) ∧ Bare (fenceText tag body) ∧
        fenceText tag body <:+: s ∧ x.1 = .fence (.ofMatch tag body) := by
  rw [extract_eq] at hclean ⊢
  have hbare : ∀ lexeme tag body, .hit lexeme (tag, body) ∈ scan fencePattern s → tag ≠ scriptTag →
      Bare (fenceText tag body) := fun lexeme tag body hmem htag =>
    bare_fence (fenceText_of_hit hmem).2.2 (hclean _ (mem_entries_of_hit htag hmem))
  obtain ⟨N, hN, hslots, hgives⟩ := stashed_replaceWith id
    (fun found entry =>
      Bare (fenceText found.1 found.2) ∧ entry = .fence (.ofMatch found.1 found.2))
    stashFence (scan fencePattern s) (fun lexeme (tag, body) hmem v => by
      unfold stashFence
      split_ifs with htag
      · exact .inl ⟨rfl, rfl⟩
      · have h := hbare lexeme tag body hmem htag
        exact .inr ⟨(fenceText_of_hit hmem).1 ▸ h, _, ⟨h, rfl⟩, rfl, rfl⟩) v
  rw [flatMap_text_scan advances_fencePattern] at hN
  refine ⟨N, hN, hslots, fun x hx => ?_⟩
  obtain ⟨lexeme, ⟨tag, body⟩, hmem, h, he⟩ := hgives x hx
  obtain ⟨rfl, hinside, htag⟩ := fenceText_of_hit hmem
  exact ⟨tag, body, htag, h, hinside, he⟩

end ScriptedNotes.Page
