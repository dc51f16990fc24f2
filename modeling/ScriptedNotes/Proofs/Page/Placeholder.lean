import Mathlib.Data.Multiset.OrderedMonoid
import Mathlib.Data.List.Basic
import ScriptedNotes.Page.Vault
import ScriptedNotes.Proofs.Text.Scanning

/-!
Texts with placeholders in them. `Holds M s` says that `s` is made of whole placeholders, those of
the entries in `M`, and of characters other than the reserved one. Such a text may be cut anywhere
at a character that no placeholder has, and the entries go with the pieces (`Holds.cuts`).
-/

namespace ScriptedNotes.Page

open Text

/-- The character of private use that every placeholder has and that a note must not have. -/
def reserved : Char := '\ue000'

/-- The placeholder of an entry with its number. -/
def label (x : Vaulted × Nat) : List Char :=
  placeholder x.1.kind x.2

/-- The entries of a vault with their numbers. -/
def Vault.slots (v : Vault) : Multiset (Vaulted × Nat) :=
  v.entries.zipIdx

/-! ### The characters of a placeholder -/

/-- Whether a character may stand in a placeholder. -/
def isLabelChar (c : Char) : Bool :=
  c.isAlphanum || c == '<' || c == '!' || c == '-' || c == '>' || c == reserved

lemma ne_open_of_not_isLabelChar {c : Char} (h : isLabelChar c = false) : c ≠ '<' := by
  rintro rfl
  cases h

lemma isLabelChar_of_isBlank {c : Char} (h : isBlank c = true) : isLabelChar c = false := by
  rw [Bool.eq_false_iff]
  intro hc
  simp only [isLabelChar, Bool.or_eq_true, beq_iff_eq] at hc
  rcases hc with ((((hc | rfl) | rfl) | rfl) | rfl) | rfl
  · exact Bool.noConfusion ((isAlphanum_of_isBlank h).symm.trans hc)
  all_goals revert h; decide

/-- What follows the reserved character in a placeholder. -/
def labelRest (x : Vaulted × Nat) : List Char :=
  "mne-".toList ++ x.1.kind ++ '-' :: Nat.toDigits 10 x.2 ++ "-->".toList

lemma label_eq (x : Vaulted × Nat) : label x = "<!--".toList ++ reserved :: labelRest x := by
  have hopening : "<!--\ue000mne-".toList = "<!--".toList ++ reserved :: "mne-".toList := by rfl
  have hassoc : ∀ a b kind digits e : List Char,
      (a ++ reserved :: b) ++ kind ++ '-' :: digits ++ e =
        a ++ reserved :: (b ++ kind ++ '-' :: digits ++ e) := by simp
  exact (congrArg (· ++ x.1.kind ++ '-' :: Nat.toDigits 10 x.2 ++ "-->".toList) hopening).trans
    (hassoc _ _ _ _ _)

lemma isAlphanum_of_mem_kind {entry : Vaulted} : ∀ c ∈ entry.kind, c.isAlphanum = true := by
  rw [← List.all_eq_true]
  cases entry with
  | fence => exact show "fence".toList.all Char.isAlphanum = true by decide
  | fragment => exact show "fragment".toList.all Char.isAlphanum = true by decide

lemma isLabelChar_of_mem_labelRest {x : Vaulted × Nat} {c : Char} (h : c ∈ labelRest x) :
    isLabelChar c = true ∧ c ≠ reserved ∧ c ≠ '<' := by
  have halpha : ∀ d : Char, d.isAlphanum = true →
      isLabelChar d = true ∧ d ≠ reserved ∧ d ≠ '<' := by
    intro d hd
    refine ⟨by simp [isLabelChar, hd], ?_, ?_⟩ <;>
    · rintro rfl
      cases hd
  have hwords : ("mne-".toList ++ "-->".toList).all
      (fun d => decide (isLabelChar d = true ∧ d ≠ reserved ∧ d ≠ '<')) = true := by decide
  have hfixed : ∀ d ∈ "mne-".toList ++ "-->".toList,
      isLabelChar d = true ∧ d ≠ reserved ∧ d ≠ '<' := fun d hd =>
    of_decide_eq_true (List.all_eq_true.1 hwords d hd)
  rcases List.mem_append.1 h with h | h
  · rcases List.mem_append.1 h with h | h
    · rcases List.mem_append.1 h with h | h
      · exact hfixed c (List.mem_append_left _ h)
      · exact halpha c (isAlphanum_of_mem_kind c h)
    · rcases List.mem_cons.1 h with rfl | h
      · decide
      · refine halpha c ?_
        rw [Char.isAlphanum, Nat.isDigit_of_mem_toDigits (by decide) (by decide) h, Bool.or_true]
  · exact hfixed c (List.mem_append_right _ h)

lemma isLabelChar_of_mem_label {x : Vaulted × Nat} {c : Char} (h : c ∈ label x) :
    isLabelChar c = true := by
  have hopening : "<!--".toList.all isLabelChar = true := by decide
  rw [label_eq] at h
  rcases List.mem_append.1 h with h | h
  · exact List.all_eq_true.1 hopening c h
  · rcases List.mem_cons.1 h with rfl | h
    · rfl
    · exact (isLabelChar_of_mem_labelRest h).1

lemma count_label (x : Vaulted × Nat) : (label x).count reserved = 1 := by
  have hrest : (labelRest x).count reserved = 0 :=
    List.count_eq_zero.2 fun h => (isLabelChar_of_mem_labelRest h).2.1 rfl
  rw [label_eq, List.count_append, List.count_cons_self, hrest]
  rfl

/-- A placeholder begins with an angle bracket and has no other one. -/
lemma label_eq_cons (x : Vaulted × Nat) : ∃ l, label x = '<' :: l ∧ '<' ∉ l := by
  refine ⟨"!--".toList ++ reserved :: labelRest x, label_eq x, fun hmem => ?_⟩
  have hopening : '<' ∉ "!--".toList := by decide
  rcases List.mem_append.1 hmem with hmem | hmem
  · exact hopening hmem
  · rcases List.mem_cons.1 hmem with hmem | hmem
    · exact absurd hmem (by decide)
    · exact (isLabelChar_of_mem_labelRest hmem).2.2 rfl

/-! ### Texts made of characters and placeholders -/

/-- A text made of the placeholders of some entries and of characters that are not reserved. -/
inductive Holds : Multiset (Vaulted × Nat) → List Char → Prop
  | nil : Holds 0 []
  | char {M : Multiset (Vaulted × Nat)} {c : Char} {s : List Char} :
    c ≠ reserved → Holds M s → Holds M (c :: s)
  | slot {M : Multiset (Vaulted × Nat)} {s : List Char} (x : Vaulted × Nat) :
    Holds M s → Holds (x ::ₘ M) (label x ++ s)

/-- Texts that hold the placeholders of some entries between them. -/
inductive HoldsEach : Multiset (Vaulted × Nat) → List (List Char) → Prop
  | nil : HoldsEach 0 []
  | cons {M N : Multiset (Vaulted × Nat)} {s : List Char} {ss : List (List Char)} :
    Holds M s → HoldsEach N ss → HoldsEach (M + N) (s :: ss)

section

variable {M N : Multiset (Vaulted × Nat)} {c : Char} {s t : List Char} {ss ts : List (List Char)}

namespace Holds

lemma plain (h : reserved ∉ s) : Holds 0 s := by
  induction s with
  | nil => exact .nil
  | cons c s ih =>
    rw [List.mem_cons, not_or] at h
    exact .char (Ne.symm h.1) (ih h.2)

lemma append (hs : Holds M s) (ht : Holds N t) : Holds (M + N) (s ++ t) := by
  induction hs with
  | nil => rwa [zero_add]
  | char hc _ ih => exact .char hc ih
  | slot x _ ih =>
    rw [List.append_assoc, Multiset.cons_add]
    exact .slot x ih

/-- A text around which others stand that hold no entry. -/
lemma enclose {before behind : List Char} (h : Holds M s) (hbefore : reserved ∉ before)
    (hbehind : reserved ∉ behind) : Holds M (before ++ s ++ behind) := by
  have hall := ((plain hbefore).append h).append (plain hbehind)
  rwa [zero_add, add_zero] at hall

lemma label (x : Vaulted × Nat) : Holds {x} (label x) := by
  have h := Holds.slot x .nil
  rwa [List.append_nil] at h

lemma count (h : Holds M s) : s.count reserved = M.card := by
  induction h with
  | nil => rfl
  | char hc _ ih => rw [List.count_cons_of_ne hc, ih]
  | slot x _ ih => rw [List.count_append, count_label, ih, Multiset.card_cons, Nat.add_comm]

lemma eq_zero_iff (h : Holds M s) : M = 0 ↔ reserved ∉ s := by
  rw [← Multiset.card_eq_zero, ← h.count, List.count_eq_zero]

/-- The first character stands by itself or begins a placeholder. -/
lemma cons_cases (h : Holds M (c :: s)) :
    c ≠ reserved ∧ Holds M s ∨
      ∃ x N t, M = x ::ₘ N ∧ c :: s = Page.label x ++ t ∧ Holds N t := by
  generalize he : c :: s = l at h
  cases h with
  | nil => cases he
  | char hc hs =>
    cases he
    exact .inl ⟨hc, hs⟩
  | slot x ht => exact .inr ⟨x, _, _, rfl, rfl, ht⟩

/-- A character that no placeholder begins with may be dropped. -/
lemma tail (hc : c ≠ '<') (h : Holds M (c :: s)) : Holds M s := by
  rcases h.cons_cases with ⟨-, hs⟩ | ⟨x, N, t, -, he, -⟩
  · exact hs
  · obtain ⟨l, hl, -⟩ := label_eq_cons x
    rw [hl] at he
    cases he
    exact (hc rfl).elim

lemma dropWhile {p : Char → Bool} (hp : ∀ c, p c = true → c ≠ '<') (h : Holds M s) :
    Holds M (s.dropWhile p) := by
  induction s with
  | nil => exact h
  | cons c s ih =>
    rw [List.dropWhile_cons]
    split
    · next hc => exact ih (h.tail (hp c hc))
    · exact h

end Holds

namespace HoldsEach

lemma singleton (h : Holds M s) : HoldsEach M [s] := by
  have hcons := HoldsEach.cons h .nil
  rwa [add_zero] at hcons

lemma cons_inv (h : HoldsEach M (s :: ss)) :
    ∃ K L, M = K + L ∧ Holds K s ∧ HoldsEach L ss := by
  cases h with
  | cons hs hss => exact ⟨_, _, rfl, hs, hss⟩

lemma of_singleton (h : HoldsEach M [s]) : Holds M s := by
  obtain ⟨K, L, rfl, hK, hL⟩ := h.cons_inv
  cases hL
  rwa [add_zero]

lemma append (hs : HoldsEach M ss) (ht : HoldsEach N ts) : HoldsEach (M + N) (ss ++ ts) := by
  induction hs with
  | nil => rwa [zero_add]
  | cons hs _ ih =>
    rw [add_assoc]
    exact .cons hs ih

lemma append_inv (h : HoldsEach M (ss ++ ts)) :
    ∃ K L, M = K + L ∧ HoldsEach K ss ∧ HoldsEach L ts := by
  induction ss generalizing M with
  | nil => exact ⟨0, M, (zero_add M).symm, .nil, h⟩
  | cons s ss ih =>
    obtain ⟨K, L, rfl, hs, hrest⟩ := h.cons_inv
    obtain ⟨K', L', rfl, hss, hts⟩ := ih hrest
    exact ⟨K + K', L', (add_assoc K K' L').symm, .cons hs hss, hts⟩

/-- Texts hold no entry just when the reserved character stands in none of them. -/
lemma eq_zero_iff (h : HoldsEach M ss) : M = 0 ↔ ∀ s ∈ ss, reserved ∉ s := by
  induction h with
  | nil => simp
  | cons hs _ ih => rw [add_eq_zero, hs.eq_zero_iff, ih, List.forall_mem_cons]

lemma map {f : List Char → List Char} (hf : ∀ {M s}, Holds M s → Holds M (f s))
    (h : HoldsEach M ss) : HoldsEach M (ss.map f) := by
  induction h with
  | nil => exact .nil
  | cons hs _ ih => exact .cons (hf hs) ih

lemma flatten (h : HoldsEach M ss) : Holds M ss.flatten := by
  induction h with
  | nil => exact .nil
  | cons hs _ ih => exact hs.append ih

lemma flatMap {f : List Char → List Char} (hf : ∀ {M s}, Holds M s → Holds M (f s))
    (h : HoldsEach M ss) : Holds M (ss.flatMap f) := by
  rw [List.flatMap_def]
  exact (h.map hf).flatten

lemma intercalate {sep : List Char} (hsep : reserved ∉ sep) (h : HoldsEach M ss) :
    Holds M (sep.intercalate ss) := by
  induction h with
  | nil => exact .nil
  | @cons K L s ss hs hss ih =>
    cases ss with
    | nil =>
      cases hss
      rw [List.intercalate_singleton, add_zero]
      exact hs
    | cons t ss =>
      rw [List.intercalate_cons_cons, List.append_assoc]
      have hrest := (Holds.plain hsep).append ih
      rw [zero_add] at hrest
      exact hs.append hrest

/-- Texts without the reserved character may be left out. -/
lemma filter {keep : List Char → Bool} (hkeep : ∀ s, keep s = false → reserved ∉ s)
    (h : HoldsEach M ss) : HoldsEach M (ss.filter keep) := by
  induction h with
  | nil => exact .nil
  | @cons K L s ss hs _ ih =>
    rw [List.filter_cons]
    split
    · exact .cons hs ih
    · next hs' =>
      rw [hs.eq_zero_iff.2 (hkeep s (by simpa using hs')), zero_add]
      exact ih

end HoldsEach

/-! ### Cutting -/

/-- A text is cut into pieces at characters that no placeholder has; characters of this kind may
also be left out. -/
inductive Cuts : List Char → List (List Char) → Prop
  | nil : Cuts [] [[]]
  | keep {s t : List Char} {ts : List (List Char)} (c : Char) :
    Cuts s (t :: ts) → Cuts (c :: s) ((c :: t) :: ts)
  | drop {s : List Char} {ts : List (List Char)} {c : Char} :
    isLabelChar c = false → Cuts s ts → Cuts (c :: s) ts
  | cut {s : List Char} {ts : List (List Char)} {c : Char} :
    isLabelChar c = false → Cuts s ts → Cuts (c :: s) ([] :: ts)

namespace Cuts

lemma keeps (w : List Char) (h : Cuts s (t :: ts)) : Cuts (w ++ s) ((w ++ t) :: ts) := by
  induction w with
  | nil => exact h
  | cons c w ih => exact .keep c ih

lemma drops {w : List Char} (hw : ∀ c ∈ w, isLabelChar c = false) (h : Cuts s ts) :
    Cuts (w ++ s) ts := by
  induction w with
  | nil => exact h
  | cons c w ih =>
    obtain ⟨hc, hw⟩ := List.forall_mem_cons.1 hw
    exact .drop hc (ih hw)

lemma self (s : List Char) : Cuts s [s] := by
  have h := keeps s .nil
  rwa [List.append_nil] at h

/-- A text without separators is kept, and the next one cuts. -/
lemma before (w : List Char) {c : Char} (hc : isLabelChar c = false) (h : Cuts s ts) :
    Cuts (w ++ c :: s) (w :: ts) := by
  have hkeeps := keeps w (.cut hc h)
  rwa [List.append_nil] at hkeeps

lemma ne_nil (h : Cuts s ts) : ts ≠ [] := by
  induction h with
  | nil | keep | cut => exact List.cons_ne_nil _ _
  | drop _ _ ih => exact ih

/-- What belongs to a placeholder is kept in one piece. -/
lemma of_label {w : List Char} (hw : ∀ c ∈ w, isLabelChar c = true) (h : Cuts (w ++ s) ts) :
    ∃ t rest, ts = (w ++ t) :: rest ∧ Cuts s (t :: rest) := by
  induction w generalizing ts with
  | nil =>
    obtain ⟨t, rest, rfl⟩ := List.exists_cons_of_ne_nil h.ne_nil
    exact ⟨t, rest, rfl, h⟩
  | cons c w ih =>
    obtain ⟨hc, hw⟩ := List.forall_mem_cons.1 hw
    rw [List.cons_append] at h
    cases h with
    | keep _ h =>
      obtain ⟨t, rest, he, hcuts⟩ := ih hw h
      cases he
      exact ⟨t, _, rfl, hcuts⟩
    | drop hc' _ | cut hc' _ =>
      rw [hc] at hc'
      cases hc'

end Cuts

/-- **The entries of a text go with its pieces.** -/
theorem Holds.cuts (h : Holds M s) (hcuts : Cuts s ts) : HoldsEach M ts := by
  induction h generalizing ts with
  | nil =>
    cases hcuts
    exact .singleton .nil
  | char hc _ ih =>
    cases hcuts with
    | keep c hcuts =>
      obtain ⟨K, L, rfl, ht, hrest⟩ := (ih hcuts).cons_inv
      exact .cons (.char hc ht) hrest
    | drop _ hcuts => exact ih hcuts
    | cut _ hcuts =>
      have hcons := HoldsEach.cons .nil (ih hcuts)
      rwa [zero_add] at hcons
  | slot x _ ih =>
    obtain ⟨t, rest, rfl, hcuts'⟩ := hcuts.of_label fun c => isLabelChar_of_mem_label
    obtain ⟨K, L, rfl, ht, hrest⟩ := (ih hcuts').cons_inv
    rw [← Multiset.cons_add]
    exact .cons (.slot x ht) hrest

/-- A text shortened by characters that no placeholder has keeps its entries. -/
lemma Holds.shortened (h : Holds M s) (hcuts : Cuts s [t]) : Holds M t :=
  (h.cuts hcuts).of_singleton

/-- A text may be cut in two at a mark that no placeholder has a character of. -/
lemma Holds.split {mark : List Char} (hne : mark ≠ []) (hmark : mark.any isLabelChar = false)
    (h : Holds M (s ++ mark ++ t)) : ∃ K L, M = K + L ∧ Holds K s ∧ Holds L t := by
  obtain ⟨c, mark, rfl⟩ := List.exists_cons_of_ne_nil hne
  rw [List.any_cons, Bool.or_eq_false_iff] at hmark
  have hdrops : Cuts (mark ++ t) [t] :=
    .drops (fun c hc => Bool.eq_false_iff.2 (List.any_eq_false.1 hmark.2 c hc)) (.self t)
  have hcuts : Cuts (s ++ c :: mark ++ t) [s, t] := by
    rw [List.append_assoc, List.cons_append]
    exact .before s hmark.1 hdrops
  obtain ⟨K, L, rfl, hs, hrest⟩ := (h.cuts hcuts).cons_inv
  exact ⟨K, L, rfl, hs, hrest.of_singleton⟩

end

end ScriptedNotes.Page
