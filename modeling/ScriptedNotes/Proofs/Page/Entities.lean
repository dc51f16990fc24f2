import ScriptedNotes.Page.Escape
import ScriptedNotes.Proofs.Text.Scanning

/-!
Entities. Whoever shows a page puts a character in the place of each entity, from left to right and
once (`decoded`). An escaped text is made of entities and of characters that mean nothing in the
markup, so it is decoded to the text that was escaped, whatever looks like an entity in that.
-/

namespace ScriptedNotes.Page

open Text

variable {c : Char} {s t : List Char}

/-- The entities with the characters that they stand for. -/
def entities : List (List Char × Char) :=
  [("&amp;".toList, '&'), ("&lt;".toList, '<'), ("&gt;".toList, '>'), ("&quot;".toList, '"'),
    ("&#039;".toList, '\'')]

/-- The entity at the beginning of a text. -/
def entityPattern : Pattern Char := fun s =>
  entities.findSome? fun (entity, c) => (after? entity s).map fun rest => (c, rest)

/-- A text with its entities resolved. -/
def decoded (s : List Char) : List Char :=
  replaceHits entityPattern (fun c => [c]) s

/-- Whether a character means nothing in the markup. -/
def isPlain (c : Char) : Bool := c ∉ ['&', '<', '>', '"', '\'']

lemma not_isPlain (h : c ∈ ['&', '<', '>', '"', '\'']) : ¬ isPlain c = true :=
  fun hplain => of_decide_eq_true hplain h

/-- A character is written as its entity, or it has none and means nothing in the markup. -/
lemma escapeChar_cases (c : Char) :
    (escapeChar c, c) ∈ entities ∨ escapeChar c = [c] ∧ isPlain c = true := by
  unfold escapeChar
  split
  · exact .inl (by decide)
  · exact .inl (by decide)
  · exact .inl (by decide)
  · exact .inl (by decide)
  · exact .inl (by decide)
  · exact .inr ⟨rfl, by simp_all [isPlain]⟩

/-- A text without characters that mean something in the markup stands for itself. -/
lemma escape_eq_self (h : s.all isPlain = true) : escape s = s := by
  have hself : ∀ c ∈ s, escapeChar c = [c] := by
    intro c hc
    rcases escapeChar_cases c with hentity | ⟨hself, -⟩
    · simp only [entities, List.mem_cons, Prod.mk.injEq, List.not_mem_nil, or_false] at hentity
      rcases hentity with ⟨-, rfl⟩ | ⟨-, rfl⟩ | ⟨-, rfl⟩ | ⟨-, rfl⟩ | ⟨-, rfl⟩ <;>
        cases List.all_eq_true.1 h _ hc
    · exact hself
  unfold escape
  rw [List.flatMap_congr hself]
  simp

/-! ### What stands in an escaped text -/

/-- No entity has a character that means something in the markup, but for its first one. -/
lemma entity_eq_cons {entity : List Char} (h : (entity, c) ∈ entities) :
    ∃ name, entity = '&' :: name ∧ name.all isPlain = true := by
  simp only [entities, List.mem_cons, Prod.mk.injEq, List.not_mem_nil, or_false] at h
  rcases h with ⟨rfl, -⟩ | ⟨rfl, -⟩ | ⟨rfl, -⟩ | ⟨rfl, -⟩ | ⟨rfl, -⟩ <;>
    exact ⟨_, rfl, by decide⟩

lemma not_mem_escape_of_markup (hc : c ∈ ['<', '>', '"', '\'']) : c ∉ escape s := by
  intro hmem
  obtain ⟨d, -, hmem⟩ := List.mem_flatMap.1 hmem
  rcases escapeChar_cases d with hentity | ⟨hself, hplain⟩
  · obtain ⟨name, hname, hmarkup⟩ := entity_eq_cons hentity
    rw [hname, List.mem_cons] at hmem
    rcases hmem with rfl | hmem
    · revert hc
      decide
    · exact not_isPlain (List.mem_cons_of_mem _ hc) (List.all_eq_true.1 hmarkup c hmem)
  · rw [hself, List.mem_singleton] at hmem
    exact not_isPlain (List.mem_cons_of_mem _ hc) (hmem ▸ hplain)

/-- An ampersand in what is written for a character begins it. -/
lemma escapeChar_ampersand {before after : List Char} (h : escapeChar c = before ++ '&' :: after) :
    before = [] ∧ (escapeChar c, c) ∈ entities := by
  rcases escapeChar_cases c with hentity | ⟨hself, hplain⟩
  · obtain ⟨name, hname, hmarkup⟩ := entity_eq_cons hentity
    refine ⟨?_, hentity⟩
    cases before with
    | nil => rfl
    | cons d before =>
      rw [hname] at h
      have hmem : '&' ∈ name := by simp [(List.cons.inj h).2]
      exact absurd (List.all_eq_true.1 hmarkup '&' hmem) (not_isPlain List.mem_cons_self)
  · have hmem : '&' ∈ [c] := by simp [hself ▸ h]
    obtain rfl := List.mem_singleton.1 hmem
    exact absurd hplain (not_isPlain List.mem_cons_self)

/-- An ampersand of an escaped text begins an entity. -/
lemma entity_of_ampersand {before after : List Char} (h : escape s = before ++ '&' :: after) :
    ∃ e ∈ entities, e.1 <+: '&' :: after := by
  induction s generalizing before with
  | nil => simp [escape] at h
  | cons c s ih =>
    have hcut : escapeChar c ++ escape s = before ++ '&' :: after := h
    rcases List.append_eq_append_iff.1 hcut with ⟨more, -, hmore⟩ | ⟨inside, hinside, hmore⟩
    · exact ih hmore
    · cases inside with
      | nil =>
        have hhere : escape s = [] ++ '&' :: after := hmore.symm
        exact ih hhere
      | cons d inside =>
        obtain ⟨rfl, hafter⟩ := List.cons.inj hmore
        obtain ⟨rfl, hentity⟩ := escapeChar_ampersand hinside
        refine ⟨_, hentity, ?_⟩
        rw [hmore]
        exact hinside ▸ List.prefix_append _ _

/-! ### Decoding -/

@[simp] lemma decoded_nil : decoded [] = [] := by
  simp [decoded, replaceHits]

lemma entityPattern_plain (hc : c ≠ '&') (s : List Char) : entityPattern (c :: s) = none := by
  simp [entityPattern, entities, after?, Ne.symm hc]

lemma decoded_plain (hc : c ≠ '&') (s : List Char) : decoded (c :: s) = c :: decoded s := by
  unfold decoded replaceHits
  rw [scan_plain (entityPattern_plain hc s)]
  rfl

lemma decoded_entity {entity : List Char} (h : (entity, c) ∈ entities) (s : List Char) :
    decoded (entity ++ s) = c :: decoded s := by
  have hread : entityPattern (entity ++ s) = some (c, s) := by
    simp only [entities, List.mem_cons, Prod.mk.injEq, List.not_mem_nil, or_false] at h
    rcases h with ⟨rfl, rfl⟩ | ⟨rfl, rfl⟩ | ⟨rfl, rfl⟩ | ⟨rfl, rfl⟩ | ⟨rfl, rfl⟩ <;> rfl
  obtain ⟨name, rfl, -⟩ := entity_eq_cons h
  unfold decoded replaceHits
  rw [scan_hit (List.cons_ne_nil _ _) hread]
  rfl

/-- An escaped text is decoded to itself, whatever stands behind it. -/
lemma decoded_escape_append (s t : List Char) : decoded (escape s ++ t) = s ++ decoded t := by
  induction s with
  | nil => rfl
  | cons c s ih =>
    show decoded (escapeChar c ++ escape s ++ t) = c :: (s ++ decoded t)
    rw [List.append_assoc, ← ih]
    rcases escapeChar_cases c with hentity | ⟨hself, hplain⟩
    · exact decoded_entity hentity _
    · rw [hself]
      exact decoded_plain (List.ne_of_not_mem_cons (of_decide_eq_true hplain)) _

/-- **Decoding undoes escaping.** -/
theorem decoded_escape (s : List Char) : decoded (escape s) = s := by
  have h := decoded_escape_append s []
  rwa [List.append_nil, decoded_nil, List.append_nil] at h

/-- Hence no two texts are escaped to the same one. -/
theorem escape_injective : Function.Injective escape :=
  Function.LeftInverse.injective decoded_escape

end ScriptedNotes.Page
