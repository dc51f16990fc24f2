import ScriptedNotes.Proofs.Page.Characters

/-!
What becomes of the vault of a page. All that a note keeps in its vault stands in its page once, and
no placeholder is left over, unless a fence has a script inside or a table has a placeholder outside
its outermost pipes (`vaultRestored_iff`).
-/

namespace ScriptedNotes.Page

open Text

variable {text : List Char}

/-! ### Entries without placeholders -/

lemma isOrdinary_reserved : isOrdinary reserved = false := by decide

lemma Vault.exists_mem_fences {v : Vault} {fence : CodeFence} (h : .fence fence ∈ v.entries) :
    ∃ id, (id, fence) ∈ v.fences := by
  obtain ⟨n, hn⟩ := Vault.exists_mem_slots h
  exact ⟨_, List.mem_filterMap.2 ⟨_, List.mem_map.2 ⟨_, Multiset.mem_coe.1 hn, rfl⟩, rfl⟩⟩

/-! ### The whole page -/

/-- What it is for a page to show all that its note keeps in the vault, and nothing of the vault
itself. -/
structure VaultRestored (text : List Char) : Prop where
  /-- No placeholder is left over. -/
  noPlaceholder : reserved ∉ (renderNote text).html
  /-- The laid out page has one slot for each entry, and the page has in it what the entry stands
  for. -/
  eachOnce : ∃ parts : List Part, CleanParts parts ∧
    (parts.filterMap Part.slot?).Perm (vaulted text).2.entries.zipIdx ∧
    laidOut text = write label parts ∧ (renderNote text).html = write (fun x => x.1.html) parts
  /-- Each fence has the code that stands in the note. -/
  verbatim : ∀ fence, .fence fence ∈ (vaulted text).2.entries →
    ∃ tag body, fenceText tag body <:+: text ∧ fence = .ofMatch tag body

section

variable (h : reserved ∉ text)
include h

/-- Every entry is the fragment of a script or a fence of the note, if no code of a fence has a
placeholder. -/
lemma vaulted_cases
    (hclean : ∀ fence, .fence fence ∈ (vaulted text).2.entries → reserved ∉ fence.code)
    {entry : Vaulted} (hentry : entry ∈ (vaulted text).2.entries) :
    (∃ number source, source ⊆ text ∧ entry = .fragment (scriptHtml (.ofSource number source))) ∨
      ∃ tag body, (∀ c ∈ tag, isWord c = true) ∧ fenceText tag body <:+: text ∧
        entry = .fence (.ofMatch tag body) := by
  obtain ⟨hscripts, hfragments⟩ := stashed_withoutScripts h
  obtain ⟨N, -, hslots, hgives⟩ := stashed_extract hclean
  obtain ⟨n, hn⟩ := Vault.exists_mem_slots hentry
  rw [vaulted, hslots] at hn
  rcases Multiset.mem_add.1 hn with hn | hn
  · exact .inl (hfragments entry (List.fst_mem_of_mem_zipIdx (Multiset.mem_coe.1 hn)))
  · obtain ⟨tag, body, htag, hbare, hinside, he⟩ := hgives _ hn
    exact .inr ⟨tag, body, htag, hscripts.infix_of_bare hbare hinside, he⟩

/-- The entries have no placeholders in them, if no code of a fence has one. -/
lemma reserved_not_mem_html
    (hclean : ∀ fence, .fence fence ∈ (vaulted text).2.entries → reserved ∉ fence.code) :
    ∀ entry ∈ (vaulted text).2.entries, reserved ∉ entry.html := by
  intro entry hentry
  rcases vaulted_cases h hclean hentry with
    ⟨number, source, hsource, rfl⟩ | ⟨tag, body, htag, -, rfl⟩
  · exact not_mem_scriptHtml isOrdinary_reserved number fun hmem => h (hsource hmem)
  · exact not_mem_fenceHtml isOrdinary_reserved htag (hclean _ hentry)

/-- The text of a clean note holds all entries of its vault, if no code of a fence has a
placeholder. -/
lemma holds_vaulted
    (hclean : ∀ fence, .fence fence ∈ (vaulted text).2.entries → reserved ∉ fence.code) :
    Holds (vaulted text).2.slots (vaulted text).1 := by
  obtain ⟨hscripts, -⟩ := stashed_withoutScripts h
  obtain ⟨N, hfences, hslots, -⟩ := stashed_extract hclean
  have hkept := hscripts.holds (.plain h)
  rw [zero_add] at hkept
  rw [vaulted, hslots]
  exact hfences.holds hkept

lemma restored_of_clean
    (hclean : ∀ fence, .fence fence ∈ (vaulted text).2.entries → reserved ∉ fence.code)
    (hleavings : ∀ piece ∈ leavings (vaulted text).1, reserved ∉ piece) : VaultRestored text := by
  have hhtml := reserved_not_mem_html h hclean
  obtain ⟨K, L, hslots, hK, hL⟩ := leavesOut_renderBlocks (holds_vaulted h hclean)
  obtain rfl := hL.eq_zero_iff.2 hleavings
  rw [add_zero] at hslots
  obtain ⟨parts, hparts, hK', hwrite⟩ := hK.renderInline.exists_parts
  have hperm : (parts.filterMap Part.slot?).Perm (vaulted text).2.entries.zipIdx :=
    Multiset.coe_eq_coe.1 (hK'.trans hslots.symm)
  have hrestored : (renderNote text).html = write (fun x => x.1.html) parts := by
    rw [renderNote_html, laidOut, hwrite, restore_write hparts hhtml hperm]
  refine ⟨?_, ⟨parts, hparts, hperm, hwrite, hrestored⟩, ?_⟩
  · rw [hrestored]
    intro hmem
    obtain ⟨part, hpart, hmem⟩ := List.mem_flatMap.1 hmem
    cases part with
    | char c => exact hparts c hpart (List.mem_singleton.1 hmem).symm
    | slot x =>
      exact hhtml x.1 (List.fst_mem_of_mem_zipIdx (hperm.mem_iff.1 (mem_slots.2 hpart))) hmem
  · intro fence hfence
    rcases vaulted_cases h hclean hfence with ⟨number, source, -, he⟩ | ⟨tag, body, -, hinside, he⟩
    · cases he
    · cases he
      exact ⟨tag, body, hinside, rfl⟩

lemma clean_of_verbatim (hrestored : VaultRestored text) :
    ∀ fence, .fence fence ∈ (vaulted text).2.entries → reserved ∉ fence.code := by
  intro fence hfence hmem
  obtain ⟨tag, body, hinside, rfl⟩ := hrestored.verbatim fence hfence
  refine h (hinside.subset (List.mem_append_left _ (List.mem_append_right _ ?_)))
  exact List.mem_append_right _ (List.mem_cons_of_mem _ (code_subset tag body hmem))

lemma clean_of_restored (hrestored : VaultRestored text) :
    ∀ piece ∈ leavings (vaulted text).1, reserved ∉ piece := by
  have hclean := clean_of_verbatim h hrestored
  have hhtml := reserved_not_mem_html h hclean
  obtain ⟨K, L, hslots, hK, hL⟩ := leavesOut_renderBlocks (holds_vaulted h hclean)
  obtain ⟨parts, hparts, hperm, hwrite, -⟩ := hrestored.eachOnce
  have hslots' : ∀ x, .slot x ∈ parts → reserved ∉ x.1.html := fun x hx =>
    hhtml x.1 (List.fst_mem_of_mem_zipIdx (hperm.mem_iff.1 (mem_slots.2 hx)))
  -- The laid out page has as many placeholders as the vault has entries, so none has been lost.
  have hcount : K.card = (vaulted text).2.slots.card := by
    rw [← hK.renderInline.count]
    show (laidOut text).count reserved = _
    rw [hwrite, ← write_filled_zero, (holds_write hparts hslots').count, Vault.slots,
      Multiset.coe_card, Multiset.coe_card, List.filter_eq_self.2 fun x _ => by simp]
    exact hperm.length_eq
  refine hL.eq_zero_iff.1 (Multiset.card_eq_zero.1 ?_)
  rw [hslots, Multiset.card_add] at hcount
  omega

/-- **The vault of a clean note is restored just when no fence has a script inside and no table has
a placeholder outside the outermost pipes of a row.** -/
theorem vaultRestored_iff : VaultRestored text ↔
    (∀ fence, .fence fence ∈ (vaulted text).2.entries → reserved ∉ fence.code) ∧
      ∀ piece ∈ leavings (vaulted text).1, reserved ∉ piece :=
  ⟨fun hrestored => ⟨clean_of_verbatim h hrestored, clean_of_restored h hrestored⟩,
    fun ⟨hclean, hleavings⟩ => restored_of_clean h hclean hleavings⟩

end

/-- A note with a script, a table with marks in its cells, and a fence. -/
def mixedNote : List Char :=
  ("# Greeting\n\n:::automation\nprint \"hi\"\n:::\n\n| note | code |\n|---|---|\n" ++
    "| *soon* | [see](below) |\n\n```rust\nlet x = a < b;\n```").toList

theorem vaultRestored_mixedNote : reserved ∉ mixedNote ∧ VaultRestored mixedNote := by
  have hclean : reserved ∉ mixedNote := by decide +kernel
  have hfences : ∀ found ∈ (vaulted mixedNote).2.fences, reserved ∉ found.2.code := by
    decide +kernel
  refine ⟨hclean, (vaultRestored_iff hclean).2 ⟨fun fence hfence => ?_, by decide +kernel⟩⟩
  obtain ⟨id, hid⟩ := Vault.exists_mem_fences hfence
  exact hfences _ hid

/-- A fence that shows how a script is written. -/
def fencedScript : List Char :=
  "```md\n:::automation\nprint 1\n:::\n```".toList

/-- The placeholder of the script is left over inside of the fence. -/
theorem fencedScript_not_restored : reserved ∉ fencedScript ∧ ¬ VaultRestored fencedScript :=
  ⟨by decide +kernel, fun h => h.noPlaceholder (by decide +kernel)⟩

end ScriptedNotes.Page
