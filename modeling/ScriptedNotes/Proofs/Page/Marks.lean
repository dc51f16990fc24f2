import ScriptedNotes.Page.Inline
import ScriptedNotes.Proofs.Page.Placeholder
import ScriptedNotes.Proofs.Text.Scanning

/-!
Scanning a text with placeholders. A pattern that begins with a mark does not see inside of a
placeholder, and where it cuts its hit at marks the entries go with the pieces. So the marks inside
lines keep all entries (`Holds.renderInline`).
-/

namespace ScriptedNotes.Page

open Text

variable {α : Type} {M N : Multiset (Vaulted × Nat)} {c : Char} {s t rest : List Char}

/-! ### Scans -/

/-- No hit of the pattern begins with a character of a placeholder. -/
def SkipsLabels (p : Pattern α) : Prop :=
  ∀ c s, isLabelChar c = true → p (c :: s) = none

variable {p : Pattern α}

lemma scan_label (hskips : SkipsLabels p) (x : Vaulted × Nat) (s : List Char) :
    scan p (label x ++ s) = (label x).map .plain ++ scan p s :=
  scan_append (fun _ hc _ => hskips _ _ (isLabelChar_of_mem_label hc)) s

/-- Induction along a scan of a text with placeholders. -/
theorem Holds.scan_induct {motive : Multiset (Vaulted × Nat) → List Char → Prop}
    (hp : p.Advances) (nil : motive 0 [])
    (plain : ∀ {M c s}, c ≠ reserved → p (c :: s) = none → motive M s → motive M (c :: s))
    (slot : ∀ {M s} x, motive M s → motive (x ::ₘ M) (Page.label x ++ s))
    (hit : ∀ {M lexeme a rest}, lexeme ≠ [] → p (lexeme ++ rest) = some (a, rest) →
      Holds M (lexeme ++ rest) → (∀ N, Holds N rest → motive N rest) → motive M (lexeme ++ rest))
    (h : Holds M s) : motive M s := by
  induction hn : s.length using Nat.strong_induction_on generalizing s M with
  | _ n ih =>
    match s with
    | [] =>
      rw [h.eq_zero_iff.2 List.not_mem_nil]
      exact nil
    | c :: s =>
      match hread : p (c :: s) with
      | none =>
        rcases h.cons_cases with ⟨hc, hs⟩ | ⟨x, N, t, rfl, he, ht⟩
        · exact plain hc hread (ih s.length (by rw [← hn, List.length_cons]; omega) hs rfl)
        · have hlt : t.length < n := by
            obtain ⟨l, hl, -⟩ := label_eq_cons x
            rw [← hn, he, hl, List.length_append, List.length_cons]
            omega
          rw [he]
          exact slot x (ih t.length hlt ht rfl)
      | some (a, rest) =>
        obtain ⟨lexeme, hlexeme, he⟩ := hp hread
        have hlt : rest.length < n := by
          have hpos := List.length_pos_iff.2 hlexeme
          rw [← hn, he, List.length_append]
          omega
        rw [he] at h hread ⊢
        exact hit hlexeme hread h fun N hN => ih rest.length hlt hN rfl

/-- Replacing hits keeps the entries of a text if each replacement keeps those of its hit. -/
theorem Holds.replaceHits {f : α → List Char} (hp : p.Advances) (hskips : SkipsLabels p)
    (hhit : ∀ {M s a rest}, p s = some (a, rest) → Holds M s →
      ∃ K L, M = K + L ∧ Holds K (f a) ∧ Holds L rest) (h : Holds M s) :
    Holds M (replaceHits p f s) := by
  unfold Text.replaceHits
  refine h.scan_induct (motive := fun M s => Holds M ((scan p s).flatMap _)) hp
    ?nil ?plain ?slot ?hit
  case nil =>
    rw [scan_nil]
    exact .nil
  case plain =>
    intro M c s hc hnone ih
    rw [scan_plain hnone, List.flatMap_cons]
    exact .char hc ih
  case slot =>
    intro M s x ih
    rw [scan_label hskips, List.flatMap_append, List.flatMap_map, List.flatMap_singleton']
    exact .slot x ih
  case hit =>
    intro M lexeme a rest hlexeme hread h ih
    obtain ⟨K, L, rfl, hK, hL⟩ := hhit hread h
    rw [scan_hit hlexeme hread, List.flatMap_cons]
    exact hK.append (ih L hL)

/-! ### Marks -/

lemma upTo?_eq_append {mark inside : List Char} (h : upTo? mark s = some (inside, rest)) :
    s = inside ++ mark ++ rest := by
  unfold upTo? at h
  exact cut_eq_some (Option.filter_eq_some_iff.1 h).1

lemma enclosed_eq_append {mark inside : List Char} (h : enclosed mark s = some (inside, rest)) :
    s = mark ++ inside ++ mark ++ rest := by
  simp only [enclosed, bind, Option.bind_eq_some_iff] at h
  obtain ⟨t, ht, hup⟩ := h
  rw [after?_eq_some_iff.1 ht, upTo?_eq_append hup]
  simp only [List.append_assoc]

lemma link_eq_append {found target : List Char} (h : link s = some ((found, target), rest)) :
    s = ['['] ++ found ++ [']', '('] ++ target ++ [')'] ++ rest := by
  simp only [link, bind, Option.bind_eq_some_iff, pure, Option.some.injEq, Prod.mk.injEq,
    Prod.exists] at h
  obtain ⟨t, ht, found, u, hu, target, rest, hrest, ⟨rfl, rfl⟩, rfl⟩ := h
  rw [after?_eq_some_iff.1 ht, upTo?_eq_append hu, upTo?_eq_append hrest]
  simp

section

variable {mark : List Char} (hne : mark ≠ []) (hmark : mark.any isLabelChar = false)
include hne hmark

lemma skipsLabels_enclosed : SkipsLabels (enclosed mark) := by
  obtain ⟨c, mark, rfl⟩ := List.exists_cons_of_ne_nil hne
  intro d s hd
  have hcd : c ≠ d := by
    rintro rfl
    exact List.any_eq_false.1 hmark c List.mem_cons_self hd
  simp [enclosed, after?, hcd]

omit hmark in
lemma advances_enclosed : (enclosed mark).Advances := by
  intro s inside rest h
  refine ⟨mark ++ inside ++ mark, ?_, enclosed_eq_append h⟩
  rw [List.append_assoc]
  exact List.append_ne_nil_of_left_ne_nil hne _

lemma Holds.renderEnclosed {tag : String} (htag : reserved ∉ tag.toList) (h : Holds M s) :
    Holds M (renderEnclosed mark tag s) := by
  refine h.replaceHits (advances_enclosed hne) (skipsLabels_enclosed hne hmark) ?_
  intro M s inside rest hread h
  rw [enclosed_eq_append hread] at h
  obtain ⟨K, L, rfl, hK, hL⟩ := h.split hne hmark
  obtain ⟨K₁, K₂, rfl, hK₁, hK₂⟩ := Holds.split (s := []) hne hmark (by simpa using hK)
  obtain rfl := hK₁.eq_zero_iff.2 List.not_mem_nil
  refine ⟨K₂, L, by rw [zero_add], hK₂.enclose ?_ ?_, hL⟩
  · simp only [String.toList_append, List.mem_append, not_or]
    exact ⟨⟨by decide, htag⟩, by decide⟩
  · simp only [String.toList_append, List.mem_append, not_or]
    exact ⟨⟨by decide, htag⟩, by decide⟩

end

lemma skipsLabels_link : SkipsLabels link := by
  intro c s hc
  have hne : '[' ≠ c := by
    rintro rfl
    cases hc
  simp [link, after?, hne]

lemma advances_link : link.Advances := by
  rintro s ⟨found, target⟩ rest h
  exact ⟨['['] ++ found ++ [']', '('] ++ target ++ [')'], by simp, link_eq_append h⟩

/-- A link changes the order of its text and its target. -/
lemma Holds.renderLinks (h : Holds M s) : Holds M (renderLinks s) := by
  refine h.replaceHits advances_link skipsLabels_link ?_
  rintro M s ⟨found, target⟩ rest hread h
  rw [link_eq_append hread] at h
  obtain ⟨K, L, rfl, hK, hL⟩ := h.split (List.cons_ne_nil _ _) (by decide)
  obtain ⟨K, T, rfl, hK, hT⟩ := hK.split (List.cons_ne_nil _ _) (by decide)
  have hF : Holds K found := hK.tail (by decide)
  refine ⟨T + K, L, by rw [add_comm K T], ?_, hL⟩
  rw [← add_zero (T + K)]
  refine .append (.append (hT.enclose ?_ ?_) hF) (.plain ?_) <;> decide

/-- **The marks inside lines keep every entry.** -/
theorem Holds.renderInline (h : Holds M s) : Holds M (renderInline s) :=
  (((h.renderEnclosed (by decide) (by decide) (by decide)).renderEnclosed (by decide) (by decide)
    (by decide)).renderEnclosed (by decide) (by decide) (by decide)).renderLinks

end ScriptedNotes.Page
