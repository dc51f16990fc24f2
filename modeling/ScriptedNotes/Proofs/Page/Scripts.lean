import ScriptedNotes.Proofs.Page.LineEnds

/-!
The scripts of a note. `BeginsScript` says where one begins. A note is cut at its scripts
(`Scripted`): what replaces them is put in their places and nothing else changes, and with a
placeholder for each of them no script is left in the note (`exists_scripted`).
-/

namespace ScriptedNotes.Page

open Text

variable {c : Char} {s t w mark source rest lexeme : List Char}

/-! ### Where a script begins -/

lemma mem_behindBlankLines_iff :
    t ∈ behindBlankLines s ↔
      ∃ blanks, (∀ c ∈ blanks, isSpace c = true) ∧ s = blanks ++ '\n' :: t := by
  induction s with
  | nil => simp [behindBlankLines]
  | cons c s ih =>
    rw [behindBlankLines]
    constructor
    · intro h
      split at h
      · next hc =>
        rcases List.mem_append.1 h with h | h
        · obtain ⟨blanks, hblanks, rfl⟩ := ih.1 h
          exact ⟨c :: blanks, List.forall_mem_cons.2 ⟨hc, hblanks⟩, rfl⟩
        · split at h
          · next hfeed =>
            obtain rfl := List.mem_singleton.1 h
            exact ⟨[], List.forall_mem_nil _, by rw [hfeed, List.nil_append]⟩
          · cases h
      · cases h
    · rintro ⟨_ | ⟨d, blanks⟩, hblanks, he⟩
      · obtain ⟨rfl, rfl⟩ := List.cons.inj he
        rw [if_pos (by decide), if_pos rfl]
        exact List.mem_append_right _ List.mem_cons_self
      · obtain ⟨rfl, rfl⟩ := List.cons.inj he
        obtain ⟨hc, hblanks⟩ := List.forall_mem_cons.1 hblanks
        rw [if_pos hc]
        exact List.mem_append_left _ (ih.2 ⟨blanks, hblanks, rfl⟩)

/-- A script between marks of one kind begins here: behind mark and tag there are blanks up to the
end of a line, and somewhere below a line begins with the mark again. -/
def BeginsScript (mark s : List Char) : Prop :=
  ∃ blanks rest, (∀ c ∈ blanks, isSpace c = true) ∧
    s = mark ++ scriptTag ++ (blanks ++ '\n' :: rest) ∧ '\n' :: mark <:+: rest

lemma scriptBetween_eq_none_iff : scriptBetween mark s = none ↔ ¬ BeginsScript mark s := by
  have hread : scriptBetween mark s = none ↔ ∀ t, after? (mark ++ scriptTag) s = some t →
      ∀ u ∈ behindBlankLines t, cut ('\n' :: mark) u = none := by
    simp only [scriptBetween, bind, Option.bind_eq_none_iff, List.findSome?_eq_none_iff]
  rw [hread]
  constructor
  · rintro h ⟨blanks, rest, hblanks, hs, hclosed⟩
    have hnone := h _ (after?_eq_some_iff.2 hs) rest
      (mem_behindBlankLines_iff.2 ⟨blanks, hblanks, rfl⟩)
    exact cut_eq_none_iff.1 hnone hclosed
  · intro h t ht u hu
    obtain ⟨blanks, hblanks, rfl⟩ := mem_behindBlankLines_iff.1 hu
    exact cut_eq_none_iff.2 fun hclosed =>
      h ⟨blanks, u, hblanks, after?_eq_some_iff.1 ht, hclosed⟩

theorem scriptPattern_eq_none_iff :
    scriptPattern s = none ↔ ¬ BeginsScript fenceMark s ∧ ¬ BeginsScript colonMark s := by
  rw [← scriptBetween_eq_none_iff, ← scriptBetween_eq_none_iff, scriptPattern,
    Option.orElse_eq_orElse, Option.orElse_eq_or, Option.or_eq_none_iff]

/-! ### Notes cut at their scripts -/

/-- A script with its marks: blanks between the tag and the end of its line, and a source that goes
up to the first line below that begins with the mark. -/
structure MarkedScript where
  mark : List Char
  blanks : List Char
  source : List Char
  mark_eq : mark = fenceMark ∨ mark = colonMark
  isSpace_blanks : ∀ c ∈ blanks, isSpace c = true
  endsFirst : ∀ inside outside,
    source ++ '\n' :: mark = inside ++ '\n' :: mark ++ outside → outside = []

namespace MarkedScript

def text (m : MarkedScript) : List Char :=
  m.mark ++ scriptTag ++ (m.blanks ++ '\n' :: (m.source ++ '\n' :: m.mark))

lemma text_ne_nil (m : MarkedScript) : m.text ≠ [] := by
  rcases m.mark_eq with h | h <;> simp [text, h, fenceMark, colonMark]

end MarkedScript

lemma exists_marked_of_scriptBetween (hmark : mark = fenceMark ∨ mark = colonMark)
    (h : scriptBetween mark s = some (source, rest)) :
    ∃ m : MarkedScript, m.mark = mark ∧ m.source = source ∧ s = m.text ++ rest := by
  simp only [scriptBetween, bind, Option.bind_eq_some_iff] at h
  obtain ⟨t, ht, hfind⟩ := h
  obtain ⟨u, hu, hcut⟩ := List.exists_of_findSome?_eq_some hfind
  obtain ⟨blanks, hblanks, rfl⟩ := mem_behindBlankLines_iff.1 hu
  obtain ⟨he, hfirst⟩ := cut_eq_some_iff.1 hcut
  refine ⟨⟨mark, blanks, source, hmark, hblanks, hfirst⟩, rfl, rfl, ?_⟩
  rw [after?_eq_some_iff.1 ht, he]
  simp [MarkedScript.text]

/-- What is read as a script is one with its marks. -/
lemma exists_marked (h : scriptPattern s = some (source, rest)) :
    ∃ m : MarkedScript, m.source = source ∧ s = m.text ++ rest ∧
      scriptBetween m.mark s = some (source, rest) := by
  rw [scriptPattern, Option.orElse_eq_orElse, Option.orElse_eq_or, Option.or_eq_some_iff] at h
  rcases h with h | ⟨-, h⟩
  · obtain ⟨m, hmark, hm⟩ := exists_marked_of_scriptBetween (.inl rfl) h
    exact ⟨m, hm.1, hm.2, hmark ▸ h⟩
  · obtain ⟨m, hmark, hm⟩ := exists_marked_of_scriptBetween (.inr rfl) h
    exact ⟨m, hm.1, hm.2, hmark ▸ h⟩

/-- A note cut at its scripts: what stands before the first one, and each script with what stands
between it and the next. -/
structure Scripted where
  head : List Char
  tail : List (MarkedScript × List Char)

namespace Scripted

variable {S : Scripted} {n : Nat} {replies : List (List Char)}

def text (S : Scripted) : List Char :=
  S.head ++ S.tail.flatMap fun (m, gap) => m.text ++ gap

/-- The scripts in order, the first of them with the number `n`. -/
def blocks (S : Scripted) (n : Nat) : List ScriptBlock :=
  (S.tail.zipIdx n).map fun ((m, _), k) => .ofSource k m.source

/-- The note with the scripts replaced by texts in their order. -/
def replaced (S : Scripted) (replies : List (List Char)) : List Char :=
  S.head ++ (S.tail.zip replies).flatMap fun ((_, gap), reply) => reply ++ gap

/-- Text in front of the first script stays where it is. -/
lemma text_prepend (w : List Char) : (⟨w ++ S.head, S.tail⟩ : Scripted).text = w ++ S.text :=
  List.append_assoc _ _ _

lemma replaced_prepend (w : List Char) :
    (⟨w ++ S.head, S.tail⟩ : Scripted).replaced replies = w ++ S.replaced replies :=
  List.append_assoc _ _ _

lemma text_cons (m : MarkedScript) (gap : List Char) :
    (⟨w, (m, gap) :: S.tail⟩ : Scripted).text =
      w ++ (m.text ++ (⟨gap, S.tail⟩ : Scripted).text) := by
  simp [text]

lemma replaced_cons (m : MarkedScript) (gap reply : List Char) :
    (⟨w, (m, gap) :: S.tail⟩ : Scripted).replaced (reply :: replies) =
      w ++ (reply ++ (⟨gap, S.tail⟩ : Scripted).replaced replies) := by
  simp [replaced]

lemma blocks_cons (m : MarkedScript) (gap : List Char) :
    (⟨w, (m, gap) :: S.tail⟩ : Scripted).blocks n = .ofSource n m.source :: S.blocks (n + 1) := rfl

end Scripted

/-! ### Placeholders for scripts -/

/-- What has no character of a placeholder stands before it or behind it. -/
lemma infix_append_label (hw : ∀ c ∈ w, isLabelChar c = false) {x : Vaulted × Nat}
    (h : w <:+: s ++ (label x ++ t)) : w <:+: s ∨ w <:+: t := by
  have hbehind : ∀ l : List Char, (∀ c ∈ l, isLabelChar c = true) → w <:+: l ++ t → w <:+: t := by
    intro l hl h
    induction l with
    | nil => exact h
    | cons d l ih =>
      obtain ⟨hd, hl⟩ := List.forall_mem_cons.1 hl
      rcases List.infix_cons_iff.1 h with h | h
      · match w with
        | [] => exact List.nil_infix
        | e :: w =>
          rw [← (List.cons_prefix_cons.1 h).1, hw e List.mem_cons_self] at hd
          cases hd
      · exact ih hl h
  induction s with
  | nil => exact .inr (hbehind (label x) (fun c => isLabelChar_of_mem_label) h)
  | cons c s ih =>
    rcases List.infix_cons_iff.1 h with h | h
    · rcases List.prefix_or_prefix_of_prefix h (List.prefix_append (c :: s) _) with h' | ⟨u, rfl⟩
      · exact .inl h'.isInfix
      · -- the text would go on into the placeholder
        obtain ⟨l, hl, -⟩ := label_eq_cons x
        replace h : c :: s ++ u <+: c :: s ++ (label x ++ t) := h
        rw [List.prefix_append_right_inj, hl] at h
        match u with
        | [] => exact .inl ((List.append_nil (c :: s)).symm ▸ List.infix_refl _)
        | d :: u =>
          have hd := hw d (List.mem_append_right _ List.mem_cons_self)
          rw [(List.cons_prefix_cons.1 h).1] at hd
          cases hd
    · exact (ih h).imp_left List.infix_cons

/-- Texts that are placeholders. -/
def AreLabels (replies : List (List Char)) : Prop :=
  ∀ reply ∈ replies, ∃ x, reply = label x

namespace Scripted

variable {S : Scripted} {replies : List (List Char)}

/-- What has no character of a placeholder has been in the note before. -/
lemma infix_text (hw : ∀ c ∈ w, isLabelChar c = false) (hreplies : AreLabels replies)
    (h : w <:+: S.replaced replies) : w <:+: S.text := by
  obtain ⟨head, tail⟩ := S
  induction tail generalizing head replies with
  | nil =>
    rwa [replaced, List.zip_nil_left] at h
  | cons first tail ih =>
    obtain ⟨m, gap⟩ := first
    have hcons := text_cons (S := ⟨gap, tail⟩) (w := head) m gap
    match replies with
    | [] =>
      rw [replaced, List.zip_nil_right, List.flatMap_nil, List.append_nil] at h
      exact h.trans (List.prefix_append _ _).isInfix
    | reply :: replies =>
      obtain ⟨⟨x, rfl⟩, hrest⟩ := List.forall_mem_cons.1 hreplies
      rw [replaced_cons (S := ⟨gap, tail⟩)] at h
      rw [hcons]
      rcases infix_append_label hw h with h | h
      · exact h.trans (List.prefix_append _ _).isInfix
      · rw [← List.append_assoc]
        exact (ih hrest gap h).trans (List.suffix_append _ _).isInfix

/-- What has no angle bracket and begins the new note stands before the first placeholder. -/
lemma prefix_head (hw : '<' ∉ w) (hreplies : AreLabels replies) (h : w <+: S.replaced replies) :
    w <+: S.head := by
  rcases List.prefix_or_prefix_of_prefix h (List.prefix_append S.head _) with hhead | ⟨u, rfl⟩
  · exact hhead
  · rw [replaced, List.prefix_append_right_inj] at h
    match u with
    | [] => exact (List.append_nil _).symm ▸ List.prefix_refl _
    | d :: u =>
      exfalso
      obtain ⟨head, tail⟩ := S
      match tail, replies with
      | [], _ => simp at h
      | _ :: _, [] => simp at h
      | (m, gap) :: tail, reply :: replies =>
        obtain ⟨⟨x, rfl⟩, -⟩ := List.forall_mem_cons.1 hreplies
        obtain ⟨l, hl, -⟩ := label_eq_cons x
        rw [List.zip_cons_cons, List.flatMap_cons, hl] at h
        obtain ⟨rfl, -⟩ := List.cons_prefix_cons.1 h
        exact hw (List.mem_append_right _ List.mem_cons_self)

/-- Where no script began before, none begins when the later ones have given way to
placeholders. -/
lemma beginsScript_of_replaced (hmark : mark = fenceMark ∨ mark = colonMark)
    (hreplies : AreLabels replies) (h : BeginsScript mark (c :: S.replaced replies)) :
    BeginsScript mark (c :: S.text) := by
  obtain ⟨blanks, rest, hblanks, he, hclosed⟩ := h
  have hopening : '<' ∉ mark ++ scriptTag ++ (blanks ++ ['\n']) := by
    have hfixed : '<' ∉ mark ++ scriptTag := by rcases hmark with rfl | rfl <;> decide
    have hspace : '<' ∉ blanks := fun hmem => absurd (hblanks _ hmem) (by decide)
    simp only [List.mem_append, not_or] at hfixed ⊢
    exact ⟨hfixed, hspace, by decide⟩
  have hmarks : ('\n' :: mark).any isLabelChar = false := by rcases hmark with rfl | rfl <;> decide
  have hclosing : ∀ d ∈ '\n' :: mark, isLabelChar d = false :=
    fun d hd => Bool.eq_false_of_not_eq_true (List.any_eq_false.1 hmarks d hd)
  -- The opening stands before the first placeholder, and what closes the script in no placeholder.
  obtain ⟨behind, hbehind⟩ : mark ++ scriptTag ++ (blanks ++ ['\n']) <+: c :: S.head := by
    refine prefix_head (S := ⟨c :: S.head, S.tail⟩) hopening hreplies ⟨rest, ?_⟩
    rw [show (⟨c :: S.head, S.tail⟩ : Scripted).replaced replies = c :: S.replaced replies from rfl,
      he]
    simp
  have hsplit : ∀ u, c :: (S.head ++ u) =
      mark ++ scriptTag ++ (blanks ++ '\n' :: (behind ++ u)) := by
    intro u
    rw [← List.cons_append, ← hbehind]
    simp
  have hrest : rest = (⟨behind, S.tail⟩ : Scripted).replaced replies := by
    have hcancel := he.symm.trans (hsplit _)
    exact (List.cons.inj (List.append_cancel_left (List.append_cancel_left hcancel))).2
  rw [hrest] at hclosed
  exact ⟨blanks, _, hblanks, hsplit _, infix_text hclosing hreplies hclosed⟩

lemma scriptPattern_replaced (hreplies : AreLabels replies)
    (h : scriptPattern (c :: S.text) = none) : scriptPattern (c :: S.replaced replies) = none := by
  rw [scriptPattern_eq_none_iff] at h ⊢
  exact ⟨fun hbegins => h.1 (beginsScript_of_replaced (.inl rfl) hreplies hbegins),
    fun hbegins => h.2 (beginsScript_of_replaced (.inr rfl) hreplies hbegins)⟩

end Scripted

/-! ### Replacing scripts -/

section

variable {β : Type} (f : β → ScriptBlock → List Char × β)

/-- What a callback makes of scripts one after another, and its state behind them. -/
def replies : β → List ScriptBlock → List (List Char) × β
  | state, [] => ([], state)
  | state, b :: blocks =>
    let (reply, state) := f state b
    let (rest, state) := replies state blocks
    (reply :: rest, state)

lemma length_replies (blocks : List ScriptBlock) (state : β) :
    (replies f state blocks).1.length = blocks.length := by
  induction blocks generalizing state with
  | nil => rfl
  | cons b blocks ih => exact congrArg Nat.succ (ih (f state b).2)

/-- What is done with one script while some have gone by. -/
def replaceStep (state : List ScriptBlock × β) (_ : List Char) (source : List Char) :
    List Char × List ScriptBlock × β :=
  let block := ScriptBlock.ofSource state.1.length source
  let (html, next) := f state.2 block
  (html, state.1 ++ [block], next)

lemma replaceScripts_eq (state : β) (text : List Char) :
    replaceScripts f state text =
      replaceWith (replaceStep f) ([], state) (scan scriptPattern text) :=
  rfl

end

namespace Scripted

/-- The note cut the way it is scanned: its scripts are those that are found, and whatever replaces
them does so in their places. -/
structure Cuts (S : Scripted) (s : List Char) : Prop where
  text_eq : S.text = s
  finds_eq : finds scriptPattern s = S.tail.map fun (m, _) => m.source
  replaceWith_eq : ∀ {β : Type} (f : β → ScriptBlock → List Char × β) (blocks : List ScriptBlock)
    (state : β), replaceWith (replaceStep f) (blocks, state) (scan scriptPattern s) =
      (S.replaced (replies f state (S.blocks blocks.length)).1, blocks ++ S.blocks blocks.length,
        (replies f state (S.blocks blocks.length)).2)
  settled : ∀ labels, AreLabels labels → labels.length = S.tail.length →
    finds scriptPattern (S.replaced labels) = []

namespace Cuts

variable {S : Scripted}

lemma nil : (⟨[], []⟩ : Scripted).Cuts [] where
  text_eq := rfl
  finds_eq := by rw [finds, scan_nil]; rfl
  replaceWith_eq f blocks state := by simp [replaceWith, replaced, Scripted.blocks, replies]
  settled labels _ _ := by simp [finds, replaced]

lemma plain (h : S.Cuts s) (hnone : scriptPattern (c :: s) = none) :
    (⟨[c] ++ S.head, S.tail⟩ : Scripted).Cuts (c :: s) where
  text_eq := by rw [text_prepend, h.text_eq]; rfl
  finds_eq := by
    rw [finds, scan_plain hnone]
    exact h.finds_eq
  replaceWith_eq f blocks state := by
    rw [scan_plain hnone, replaceWith, h.replaceWith_eq, replaced_prepend]
    rfl
  settled labels hlabels hlength := by
    rw [← h.text_eq] at hnone
    rw [replaced_prepend, List.singleton_append, finds,
      scan_plain (scriptPattern_replaced hlabels hnone)]
    exact h.settled labels hlabels hlength

lemma hit (h : S.Cuts rest) {m : MarkedScript}
    (hread : scriptPattern (m.text ++ rest) = some (m.source, rest)) :
    (⟨[], (m, S.head) :: S.tail⟩ : Scripted).Cuts (m.text ++ rest) where
  text_eq := by rw [text_cons, List.nil_append, ← h.text_eq]
  finds_eq := by
    rw [finds, scan_hit m.text_ne_nil hread]
    exact congrArg (m.source :: ·) h.finds_eq
  replaceWith_eq f blocks state := by
    rw [scan_hit m.text_ne_nil hread, replaceWith, blocks_cons]
    simp only [replaceStep, h.replaceWith_eq, replies, List.length_append, List.length_singleton]
    rw [replaced_cons, List.nil_append, List.append_assoc, List.singleton_append]
  settled labels hlabels hlength := by
    cases labels with
    | nil => cases hlength
    | cons reply labels =>
      obtain ⟨⟨x, rfl⟩, hrest⟩ := List.forall_mem_cons.1 hlabels
      have hskips : SkipsLabels scriptPattern := by
        intro d t hd
        refine scriptPattern_eq_none ?_ ?_ t <;>
        · rintro rfl
          cases hd
      have hsettled := h.settled labels hrest (Nat.succ.inj hlength)
      rw [replaced_cons, List.nil_append, finds, scan_label hskips]
      simpa [Piece.found?, finds] using hsettled

end Cuts

end Scripted

/-- **Every note is cut at its scripts.** -/
theorem exists_scripted (s : List Char) : ∃ S : Scripted, S.Cuts s := by
  induction s using advances_scriptPattern.induct with
  | nil => exact ⟨_, .nil⟩
  | plain c s hnone ih =>
    obtain ⟨S, h⟩ := ih
    exact ⟨_, h.plain hnone⟩
  | hit lexeme source rest hlexeme hread ih =>
    obtain ⟨S, h⟩ := ih
    obtain ⟨m, rfl, he, -⟩ := exists_marked hread
    obtain rfl := List.append_cancel_right he
    exact ⟨_, h.hit hread⟩

lemma areLabels_replies_stash (html : ScriptBlock → List Char) (blocks : List ScriptBlock)
    (v : Vault) : AreLabels (replies (fun v b => v.stash (html b)) v blocks).1 := by
  induction blocks generalizing v with
  | nil => exact List.forall_mem_nil _
  | cons b blocks ih => exact List.forall_mem_cons.2 ⟨⟨(.fragment (html b), v.size), rfl⟩, ih _⟩

namespace Scripted.Cuts

variable {S : Scripted}

lemma scriptBlocks_eq (h : S.Cuts s) : scriptBlocks s = S.blocks 0 := by
  rw [scriptBlocks, h.finds_eq, List.zipIdx_map, List.map_map]
  rfl

lemma replaceScripts_eq (h : S.Cuts s) {β : Type} (f : β → ScriptBlock → List Char × β)
    (state : β) : replaceScripts f state s =
      (S.replaced (replies f state (scriptBlocks s)).1, scriptBlocks s,
        (replies f state (scriptBlocks s)).2) := by
  rw [h.scriptBlocks_eq, Page.replaceScripts_eq, h.replaceWith_eq]
  rfl

/-- With placeholders in the place of the scripts, no script is in the note. -/
lemma scriptBlocks_stash (h : S.Cuts s) (html : ScriptBlock → List Char) (v : Vault) :
    scriptBlocks (replaceScripts (fun v b => v.stash (html b)) v s).1 = [] := by
  have hlength : (replies (fun v b => v.stash (html b)) v (scriptBlocks s)).1.length =
      S.tail.length := by
    rw [length_replies, h.scriptBlocks_eq]
    simp [blocks]
  have hnone := h.settled _ (areLabels_replies_stash html (scriptBlocks s) v) hlength
  rw [h.replaceScripts_eq, scriptBlocks, hnone]
  rfl

end Scripted.Cuts

end ScriptedNotes.Page
