import Mathlib.Data.String.Basic
import Mathlib.Tactic.Common
import ScriptedNotes.Keyed

/-!
Laws of tables. A table in the order of its keys stays in order whatever is set in it
(`Ordered.put`), and answers just what its entries say (`get?_eq_some_iff`). Entries of different
keys may be set in either order (`put_comm`).
-/

namespace ScriptedNotes.Keyed

variable {α : Type} {key other : String} {a b : α} {table : Keyed α}

/-! ### Looking up -/

lemma get?_eq_some_iff (h : (table.map Prod.fst).Nodup) :
    get? key table = some a ↔ (key, a) ∈ table := by
  induction table with
  | nil => exact iff_of_false (by rintro ⟨⟩) List.not_mem_nil
  | cons entry table ih =>
    obtain ⟨k, b⟩ := entry
    rw [List.map_cons, List.nodup_cons] at h
    rw [get?, List.mem_cons, Prod.mk.injEq]
    split
    · next hk =>
      subst hk
      have hnone : (k, a) ∉ table := fun hmem => h.1 (List.mem_map.2 ⟨(k, a), hmem, rfl⟩)
      simp [hnone, eq_comm]
    · next hk => simp [Ne.symm hk, ih h.2]

lemma get?_eq_none_iff : get? key table = none ↔ key ∉ table.keys := by
  induction table with
  | nil => exact iff_of_true rfl List.not_mem_nil
  | cons entry table ih =>
    obtain ⟨k, b⟩ := entry
    unfold keys at ih ⊢
    rw [get?, List.map_cons, List.mem_cons, not_or]
    split
    · next hk => exact iff_of_false (by rintro ⟨⟩) fun h => h.1 hk.symm
    · next hk => rw [ih, and_iff_right (Ne.symm hk)]

lemma get?_put (key other : String) (a : α) (table : Keyed α) :
    get? other (put key a table) = if key = other then some a else get? other table := by
  split
  · next h => rw [← h, get?_put_self]
  · next h => exact get?_put_of_ne (Ne.symm h) a table

lemma get?_erase_of_ne (h : other ≠ key) (table : Keyed α) :
    get? other (erase key table) = get? other table := by
  induction table with
  | nil => rfl
  | cons entry rest ih =>
    obtain ⟨k, a⟩ := entry
    unfold erase at ih ⊢
    by_cases hk : k = key
    · rw [List.filter_cons_of_neg (by simpa using hk), ih, get?, if_neg (hk ▸ Ne.symm h)]
    · rw [List.filter_cons_of_pos (by simpa using hk), get?, get?, ih]

lemma get?_erase_self (key : String) (table : Keyed α) : get? key (erase key table) = none := by
  induction table with
  | nil => rfl
  | cons entry rest ih =>
    obtain ⟨k, a⟩ := entry
    unfold erase at ih ⊢
    by_cases hk : k = key
    · rw [List.filter_cons_of_neg (by simpa using hk), ih]
    · rw [List.filter_cons_of_pos (by simpa using hk), get?, if_neg hk, ih]

/-! ### Setting -/

lemma put_comm_of_lt (h : key < other) (a b : α) (table : Keyed α) :
    put key a (put other b table) = put other b (put key a table) := by
  have hne : key ≠ other := h.ne
  have hnot : ¬ other < key := h.asymm
  induction table with
  | nil => simp [put, h, hne, hne.symm, hnot]
  | cons entry rest ih =>
    obtain ⟨k, c⟩ := entry
    rcases lt_trichotomy k key with hk | rfl | hk
    · have hk' : k < other := hk.trans h
      simp [put, hk.ne, hk.asymm, hk'.ne, hk'.asymm, ih]
    · simp [put, hne, hnot]
    · rcases lt_trichotomy k other with hk' | rfl | hk'
      · simp [put, hk, hk.ne', hk'.ne, hk'.asymm, hne, hnot]
      · simp [put, h, hne.symm, hnot, hne]
      · simp [put, h, hk, hk.ne', hk', hk'.ne', hne, hne.symm, hnot]

/-- Entries of different keys may be set in either order. -/
lemma put_comm (h : key ≠ other) (a b : α) (table : Keyed α) :
    put key a (put other b table) = put other b (put key a table) := by
  rcases lt_or_gt_of_ne h with h | h
  · exact put_comm_of_lt h a b table
  · exact (put_comm_of_lt h b a table).symm

/-! ### Order -/

/-- The keys are strictly increasing. -/
def Ordered (table : Keyed α) : Prop :=
  table.keys.Pairwise (· < ·)

lemma Ordered.nodup (h : table.Ordered) : (table.map Prod.fst).Nodup :=
  h.imp fun hlt => hlt.ne

lemma mem_keys_put : other ∈ (put key a table).keys ↔ other = key ∨ other ∈ table.keys := by
  induction table with
  | nil => simp [put, keys]
  | cons entry rest ih =>
    obtain ⟨k, c⟩ := entry
    unfold keys at ih ⊢
    unfold put
    split_ifs with hk hlt
    · simp [hk]
    · simp
    · simp only [List.map_cons, List.mem_cons, ih]
      tauto

/-- What is set finds its place. -/
lemma Ordered.put (h : table.Ordered) (key : String) (a : α) : (put key a table).Ordered := by
  induction table with
  | nil => exact List.pairwise_singleton _ _
  | cons entry rest ih =>
    obtain ⟨k, c⟩ := entry
    obtain ⟨hk, hrest⟩ := List.pairwise_cons.1 h
    unfold Keyed.put
    split_ifs with heq hlt
    · subst heq
      exact h
    · refine List.pairwise_cons.2 ⟨?_, h⟩
      exact List.forall_mem_cons.2 ⟨hlt, fun other hother => hlt.trans (hk other hother)⟩
    · refine List.pairwise_cons.2 ⟨fun other hother => ?_, ih hrest⟩
      rcases mem_keys_put.1 hother with rfl | hother
      · exact lt_of_le_of_ne (not_lt.1 hlt) heq
      · exact hk other hother

end ScriptedNotes.Keyed
