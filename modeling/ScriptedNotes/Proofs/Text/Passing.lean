import ScriptedNotes.Proofs.Text.Scanning

/-!
What a scan goes by. `Passes p s t` says that the scan of `s` comes to the end `t` and that the
pattern reads nothing there. Where the hits are taken out of a text, the ends of what is left are
what is left of the ends that the scan goes by (`cons_suffix_remainder_iff`).
-/

namespace ScriptedNotes.Text

variable {α : Type} {p : Pattern α} {a : α} {c d : Char} {s t u rest lexeme : List Char}

lemma Pattern.Advances.read_nil (hp : p.Advances) : p [] = none := by
  rw [Option.eq_none_iff_forall_ne_some]
  rintro ⟨a, rest⟩ h
  obtain ⟨lexeme, hne, he⟩ := hp h
  exact hne (List.append_eq_nil_iff.1 he.symm).1

/-- Nothing is found in a text just when the pattern reads nothing at any end of it. -/
theorem finds_eq_nil_iff (hp : p.Advances) : finds p s = [] ↔ ∀ t, t <:+ s → p t = none := by
  constructor
  · intro h
    induction s using hp.induct with
    | nil =>
      intro t ht
      rw [List.suffix_nil.1 ht]
      exact hp.read_nil
    | plain c s hnone ih =>
      rw [finds, scan_plain hnone] at h
      intro t ht
      rcases List.suffix_cons_iff.1 ht with rfl | ht
      · exact hnone
      · exact ih h t ht
    | hit lexeme a rest hlexeme hread ih =>
      rw [finds, scan_hit hlexeme hread] at h
      cases h
  · intro h
    rw [List.eq_nil_iff_forall_not_mem]
    intro a ha
    obtain ⟨lexeme, rest, hsuffix, hread⟩ := mem_finds hp ha
    rw [h _ hsuffix] at hread
    cases hread

/-- A scan that finds nothing has all characters as they are. -/
lemma scan_of_finds_eq_nil (h : ∀ t, t <:+ s → p t = none) : scan p s = s.map .plain := by
  induction s with
  | nil => exact scan_nil
  | cons c s ih =>
    rw [scan_plain (h _ (List.suffix_refl _)), ih fun t ht => h t (ht.trans (List.suffix_cons c s)),
      List.map_cons]

/-- The scan comes to this end of the text, and the pattern reads nothing there. -/
inductive Passes (p : Pattern α) : List Char → List Char → Prop
  | here {c : Char} {s : List Char} : p (c :: s) = none → Passes p (c :: s) (c :: s)
  | plain {c : Char} {s t : List Char} : p (c :: s) = none → Passes p s t → Passes p (c :: s) t
  | hit {lexeme rest t : List Char} {a : α} : lexeme ≠ [] →
    p (lexeme ++ rest) = some (a, rest) → Passes p rest t → Passes p (lexeme ++ rest) t

namespace Passes

lemma read_eq_none (h : Passes p s t) : p t = none := by
  induction h with
  | here h => exact h
  | plain _ _ ih => exact ih
  | hit _ _ _ ih => exact ih

lemma suffix (h : Passes p s t) : t <:+ s := by
  induction h with
  | here => exact List.suffix_refl _
  | plain _ _ ih => exact ih.trans (List.suffix_cons _ _)
  | hit _ _ _ ih => exact ih.trans (List.suffix_append _ _)

lemma plain_iff (hnone : p (c :: s) = none) : Passes p (c :: s) t ↔ t = c :: s ∨ Passes p s t := by
  constructor
  · intro h
    generalize he : c :: s = l at h
    cases h with
    | here _ => exact .inl rfl
    | plain _ h =>
      cases he
      exact .inr h
    | hit _ hread _ =>
      rw [← he, hnone] at hread
      cases hread
  · rintro (rfl | h)
    · exact .here hnone
    · exact .plain hnone h

lemma hit_iff (hlexeme : lexeme ≠ []) (hread : p (lexeme ++ rest) = some (a, rest)) :
    Passes p (lexeme ++ rest) t ↔ Passes p rest t := by
  constructor
  · intro h
    generalize he : lexeme ++ rest = l at h
    cases h with
    | here hnone | plain hnone _ =>
      rw [he, hnone] at hread
      cases hread
    | hit _ hread' h =>
      rw [he, hread'] at hread
      cases hread
      exact h
  · exact .hit hlexeme hread

end Passes

/-- A text without its hits. -/
def remainder (p : Pattern α) (s : List Char) : List Char :=
  replaceHits p (fun _ => []) s

@[simp] lemma remainder_nil : remainder p [] = [] := by rw [remainder, replaceHits, scan_nil]; rfl

lemma remainder_plain (h : p (c :: s) = none) : remainder p (c :: s) = c :: remainder p s := by
  rw [remainder, replaceHits, scan_plain h]
  rfl

lemma remainder_hit (hlexeme : lexeme ≠ []) (h : p (lexeme ++ rest) = some (a, rest)) :
    remainder p (lexeme ++ rest) = remainder p rest := by
  rw [remainder, replaceHits, scan_hit hlexeme h]
  rfl

/-- Text at which nothing is read stays where it is. -/
lemma remainder_append {w : List Char} (h : ∀ v, v <:+ w → v ≠ [] → p (v ++ rest) = none) :
    remainder p (w ++ rest) = w ++ remainder p rest := by
  induction w with
  | nil => rfl
  | cons c w ih =>
    have hhere : p (c :: (w ++ rest)) = none := h _ (List.suffix_refl _) (List.cons_ne_nil c w)
    have hbelow : ∀ v, v <:+ w → v ≠ [] → p (v ++ rest) = none :=
      fun v hv => h v (hv.trans (List.suffix_cons c w))
    rw [List.cons_append, remainder_plain hhere, ih hbelow, List.cons_append]

lemma remainder_eq_self (h : ∀ t, t <:+ s → p t = none) : remainder p s = s := by
  rw [remainder, replaceHits, scan_of_finds_eq_nil h, List.flatMap_map]
  exact List.flatMap_singleton' s

/-- **The ends of what is left are what is left of the ends that the scan goes by.** -/
theorem cons_suffix_remainder_iff (hp : p.Advances) :
    c :: u <:+ remainder p s ↔ ∃ t, Passes p s (c :: t) ∧ remainder p t = u := by
  induction s using hp.induct with
  | nil =>
    rw [remainder_nil]
    refine ⟨fun h => absurd (List.suffix_nil.1 h) (List.cons_ne_nil c u), ?_⟩
    rintro ⟨t, ht, -⟩
    exact absurd (List.suffix_nil.1 ht.suffix) (List.cons_ne_nil c t)
  | plain d s hnone ih =>
    rw [remainder_plain hnone, List.suffix_cons_iff, ih]
    simp only [Passes.plain_iff hnone]
    constructor
    · rintro (h | ⟨t, ht, hu⟩)
      · obtain ⟨rfl, rfl⟩ := List.cons.inj h
        exact ⟨s, .inl rfl, rfl⟩
      · exact ⟨t, .inr ht, hu⟩
    · rintro ⟨t, h | ht, rfl⟩
      · obtain ⟨rfl, rfl⟩ := List.cons.inj h
        exact .inl rfl
      · exact .inr ⟨t, ht, rfl⟩
  | hit lexeme a rest hlexeme hread ih =>
    rw [remainder_hit hlexeme hread, ih]
    simp only [Passes.hit_iff hlexeme hread]

end ScriptedNotes.Text
