import Mathlib.Data.List.Basic
import Mathlib.Data.Nat.Init
import ScriptedNotes.Text.Blank
import ScriptedNotes.Text.Scan
import ScriptedNotes.Text.Search

/-!
Scanning with a pattern that reads a beginning of the text and never an empty one (`Advances`). Such
a scan is either at a plain character or at a hit with its lexeme, and `Advances.induct` is the
induction along it.
-/

namespace ScriptedNotes.Text

variable {α : Type} {p : Pattern α} {a : α} {c : Char} {s rest lexeme : List Char}

/-- What the pattern reads is a beginning of the text, and not empty. -/
def Pattern.Advances (p : Pattern α) : Prop :=
  ∀ ⦃s a rest⦄, p s = some (a, rest) → ∃ lexeme, lexeme ≠ [] ∧ s = lexeme ++ rest

@[simp] lemma scan_nil : scan p [] = [] := by rw [scan]

lemma scan_plain (h : p (c :: s) = none) : scan p (c :: s) = .plain c :: scan p s := by
  rw [scan, h]

lemma scan_hit (hlexeme : lexeme ≠ []) (h : p (lexeme ++ rest) = some (a, rest)) :
    scan p (lexeme ++ rest) = .hit lexeme a :: scan p rest := by
  obtain ⟨c, l, rfl⟩ := List.exists_cons_of_ne_nil hlexeme
  rw [List.cons_append] at h ⊢
  rw [scan, h]
  have hlt : rest.length < (c :: (l ++ rest)).length := by
    rw [List.length_cons, List.length_append]
    omega
  have htake : (c :: (l ++ rest)).take ((c :: (l ++ rest)).length - rest.length) = c :: l := by
    rw [← List.cons_append, List.length_append, Nat.add_sub_cancel, List.take_left]
  rw [← htake]
  exact if_pos hlt

/-- Induction along a scan. -/
theorem Pattern.Advances.induct {motive : List Char → Prop} (hp : p.Advances) (nil : motive [])
    (plain : ∀ c s, p (c :: s) = none → motive s → motive (c :: s))
    (hit : ∀ lexeme a rest, lexeme ≠ [] → p (lexeme ++ rest) = some (a, rest) → motive rest →
      motive (lexeme ++ rest)) (s : List Char) : motive s := by
  induction hn : s.length using Nat.strong_induction_on generalizing s with
  | _ n ih =>
    match s with
    | [] => exact nil
    | c :: s =>
      match h : p (c :: s) with
      | none => exact plain c s h (ih s.length (by rw [← hn, List.length_cons]; omega) s rfl)
      | some (a, rest) =>
        obtain ⟨lexeme, hlexeme, he⟩ := hp h
        have hlt : rest.length < n := by
          have hpos := List.length_pos_iff.2 hlexeme
          rw [← hn, he, List.length_append]
          omega
        rw [he] at h ⊢
        exact hit lexeme a rest hlexeme h (ih rest.length hlt rest rfl)

/-- No hit begins inside a text that none of whose characters begins one. -/
lemma scan_append (h : ∀ c ∈ s, ∀ t, p (c :: t) = none) (t : List Char) :
    scan p (s ++ t) = s.map .plain ++ scan p t := by
  induction s with
  | nil => rfl
  | cons c s ih =>
    rw [List.cons_append, scan_plain (h c List.mem_cons_self _),
      ih fun d hd => h d (List.mem_cons_of_mem _ hd)]
    rfl

/-- Each hit is read off an end of the text. -/
theorem mem_scan (hp : p.Advances) (h : .hit lexeme a ∈ scan p s) :
    ∃ rest, lexeme ++ rest <:+ s ∧ p (lexeme ++ rest) = some (a, rest) := by
  induction s using hp.induct with
  | nil => simp at h
  | plain c s hnone ih =>
    rw [scan_plain hnone] at h
    obtain ⟨rest, ht, hread⟩ := ih (by simpa using h)
    exact ⟨rest, ht.trans (List.suffix_cons c s), hread⟩
  | hit lexeme' b rest hlexeme hread ih =>
    rw [scan_hit hlexeme hread] at h
    rcases List.mem_cons.1 h with h | h
    · cases h
      exact ⟨rest, List.suffix_refl _, hread⟩
    · obtain ⟨rest', ht, hread'⟩ := ih h
      exact ⟨rest', ht.trans (List.suffix_append lexeme' rest), hread'⟩

theorem mem_finds (hp : p.Advances) (h : a ∈ finds p s) :
    ∃ lexeme rest, lexeme ++ rest <:+ s ∧ p (lexeme ++ rest) = some (a, rest) := by
  obtain ⟨piece, hpiece, hfound⟩ := List.mem_filterMap.1 h
  cases piece with
  | plain c => cases hfound
  | hit lexeme b =>
    cases hfound
    exact ⟨lexeme, mem_scan hp hpiece⟩

/-- The pieces of a scan are the text. -/
theorem flatMap_text_scan (hp : p.Advances) (s : List Char) :
    (scan p s).flatMap Piece.text = s := by
  induction s using hp.induct with
  | nil => simp
  | plain c s hnone ih =>
    rw [scan_plain hnone, List.flatMap_cons, ih, Piece.text, List.singleton_append]
  | hit lexeme b rest hlexeme hread ih =>
    rw [scan_hit hlexeme hread, List.flatMap_cons, ih, Piece.text]

/-! ### The first place of a text -/

section Cutting

variable {pattern before : List Char}

/-- The search fails only if there is no place. -/
theorem cut_eq_none_iff : cut pattern s = none ↔ ¬ pattern <:+: s := by
  constructor
  · intro h
    induction s with
    | nil =>
      rw [cut] at h
      split at h
      · cases h
      · next hne =>
        intro hinfix
        rw [List.infix_nil] at hinfix
        exact hne (List.isEmpty_iff.2 hinfix)
    | cons c s ih =>
      rw [cut] at h
      split at h
      · cases h
      · next hafter =>
        rw [List.infix_cons_iff, not_or]
        refine ⟨?_, ih (Option.map_eq_none_iff.1 h)⟩
        rintro ⟨rest, hrest⟩
        rw [after?_eq_some_iff.2 hrest.symm] at hafter
        cases hafter
  · intro h
    rw [Option.eq_none_iff_forall_ne_some]
    rintro ⟨before, rest⟩ hcut
    exact h ⟨before, rest, (cut_eq_some hcut).symm⟩

/-- No place begins before the one that is found. -/
lemma length_le_of_cut {inside outside : List Char} (h : cut pattern s = some (before, rest))
    (hs : s = inside ++ pattern ++ outside) : before.length ≤ inside.length := by
  induction s generalizing before inside with
  | nil =>
    rw [cut] at h
    split at h <;> cases h
    exact Nat.zero_le _
  | cons c s ih =>
    rw [cut] at h
    split at h
    · cases h
      exact Nat.zero_le _
    · next hafter =>
      obtain ⟨⟨found, behind⟩, hfound, he⟩ := Option.map_eq_some_iff.1 h
      cases he
      cases inside with
      | nil =>
        rw [List.nil_append] at hs
        rw [after?_eq_some_iff.2 hs] at hafter
        cases hafter
      | cons d inside =>
        exact Nat.succ_le_succ (ih hfound (List.cons.inj hs).2)

/-- What is found is the first place: up to its end there is no other one. -/
theorem cut_eq_some_iff : cut pattern s = some (before, rest) ↔
    s = before ++ pattern ++ rest ∧
      ∀ inside outside, before ++ pattern = inside ++ pattern ++ outside → outside = [] := by
  constructor
  · refine fun h => ⟨cut_eq_some h, fun inside outside he => ?_⟩
    have hs : s = inside ++ pattern ++ (outside ++ rest) := by
      rw [cut_eq_some h, he, List.append_assoc]
    have hle := length_le_of_cut h hs
    have hlength := congrArg List.length he
    simp only [List.length_append] at hlength
    exact List.eq_nil_of_length_eq_zero (by omega)
  · rintro ⟨rfl, hfirst⟩
    match hcut : cut pattern (before ++ pattern ++ rest) with
    | none => exact absurd ⟨before, rest, rfl⟩ (cut_eq_none_iff.1 hcut)
    | some (found, behind) =>
      have he := cut_eq_some hcut
      have hle := length_le_of_cut hcut rfl
      rcases List.append_eq_append_iff.1 he with ⟨more, hmore, -⟩ | ⟨more, hmore, rfl⟩
      · -- the place found ends no earlier than the given one, so the two are the same
        have hlength := congrArg List.length hmore
        simp only [List.length_append] at hlength
        obtain rfl := List.eq_nil_of_length_eq_zero (show more.length = 0 by omega)
        rw [List.append_nil] at hmore
        obtain rfl := List.append_cancel_right hmore
        rw [List.append_cancel_left he]
      · obtain rfl := hfirst found more hmore
        rw [List.append_nil] at hmore
        obtain rfl := List.append_cancel_right hmore
        rfl

/-- The search passes over a text without the character that the pattern begins with. -/
lemma cut_skip {w : List Char} {d : Char} (hw : d ∉ w) (s : List Char) :
    cut (d :: pattern) (w ++ s) =
      (cut (d :: pattern) s).map fun (before, rest) => (w ++ before, rest) := by
  induction w with
  | nil => simp
  | cons c w ih =>
    rw [List.mem_cons, not_or] at hw
    rw [List.cons_append, cut, after?, if_neg hw.1, ih hw.2, Option.map_map]
    rfl

end Cutting

/-! ### Pieces -/

lemma subset_of_mem_splitOn {sep : Char} {l : List Char} (h : l ∈ s.splitOn sep) : l ⊆ s := by
  induction s generalizing l with
  | nil =>
    rw [List.splitOn_nil, List.mem_singleton] at h
    rw [h]
    exact List.Subset.refl _
  | cons c s ih =>
    rw [List.splitOn_cons_eq_if_modifyHead] at h
    have hself := List.subset_cons_self c s
    split at h
    · rcases List.mem_cons.1 h with rfl | h
      · exact List.nil_subset _
      · exact List.Subset.trans (ih h) hself
    · match hs : s.splitOn sep with
      | [] =>
        rw [hs] at h
        cases h
      | first :: others =>
        rw [hs] at h ih
        rcases List.mem_cons.1 h with rfl | h
        · exact List.cons_subset_cons c (ih List.mem_cons_self)
        · exact List.Subset.trans (ih (List.mem_cons_of_mem _ h)) hself

/-- No piece between separators holds one. -/
lemma sep_not_mem_of_mem_splitOn {sep : Char} {l : List Char} (h : l ∈ s.splitOn sep) :
    sep ∉ l := by
  induction s generalizing l with
  | nil =>
    rw [List.splitOn_nil, List.mem_singleton] at h
    rw [h]
    exact List.not_mem_nil
  | cons c s ih =>
    rw [List.splitOn_cons_eq_if_modifyHead] at h
    split at h
    · rcases List.mem_cons.1 h with rfl | h
      · exact List.not_mem_nil
      · exact ih h
    · next hc =>
      match hs : s.splitOn sep with
      | [] =>
        rw [hs] at h
        cases h
      | first :: others =>
        rw [hs] at h ih
        rcases List.mem_cons.1 h with rfl | h
        · intro hmem
          rcases List.mem_cons.1 hmem with rfl | hmem
          · exact hc (by simp)
          · exact ih List.mem_cons_self hmem
        · exact ih (List.mem_cons_of_mem _ h)

/-- What stands in a joined text stands in the separator or in a part. -/
lemma mem_of_mem_intercalate {sep : List Char} {ls : List (List Char)}
    (h : c ∈ sep.intercalate ls) : c ∈ sep ∨ ∃ l ∈ ls, c ∈ l := by
  induction ls with
  | nil => simp at h
  | cons first rest ih =>
    cases rest with
    | nil => exact .inr ⟨first, List.mem_cons_self, by simpa using h⟩
    | cons second rest =>
      rw [List.intercalate_cons_cons, List.mem_append, List.mem_append] at h
      rcases h with (h | h) | h
      · exact .inr ⟨first, List.mem_cons_self, h⟩
      · exact .inl h
      · rcases ih h with h | ⟨l, hl, h⟩
        · exact .inl h
        · exact .inr ⟨l, List.mem_cons_of_mem _ hl, h⟩

lemma dropReturn_subset (l : List Char) : dropReturn l ⊆ l := by
  unfold dropReturn
  split_ifs
  · exact List.dropLast_subset l
  · exact List.Subset.refl l

lemma subset_of_mem_closeLines {ls : List (List Char)} {l : List Char} (h : l ∈ closeLines ls) :
    ∃ l' ∈ ls, l ⊆ l' := by
  induction ls using closeLines.induct with
  | case1 => cases h
  | case2 last hlast => simp [closeLines, hlast] at h
  | case3 last hlast =>
    obtain rfl : l = last := by simpa [closeLines, hlast] using h
    exact ⟨l, List.mem_cons_self, List.Subset.refl l⟩
  | case4 line rest hrest ih =>
    rw [closeLines] at h
    · rcases List.mem_cons.1 h with rfl | h
      · exact ⟨line, List.mem_cons_self, dropReturn_subset line⟩
      · obtain ⟨l', hl', hsub⟩ := ih h
        exact ⟨l', List.mem_cons_of_mem _ hl', hsub⟩
    · exact hrest

lemma subset_of_mem_lines {l : List Char} (h : l ∈ lines s) : l ⊆ s := by
  obtain ⟨l', hl', hsub⟩ := subset_of_mem_closeLines h
  exact List.Subset.trans hsub (subset_of_mem_splitOn hl')

lemma trim_subset (s : List Char) : trim s ⊆ s := by
  intro c hc
  unfold trim trimEnd trimStart at hc
  rw [List.mem_reverse] at hc
  exact (List.dropWhile_suffix _).subset
    (List.mem_reverse.1 ((List.dropWhile_suffix _).subset hc))

/-! ### Characters -/

lemma toNat_of_isAlphanum {c : Char} (h : c.isAlphanum = true) :
    (65 ≤ c.toNat ∧ c.toNat ≤ 90 ∨ 97 ≤ c.toNat ∧ c.toNat ≤ 122) ∨ 48 ≤ c.toNat ∧ c.toNat ≤ 57 := by
  change ((decide (c.val ≥ 'A'.val ∧ c.val ≤ 'Z'.val) ||
    (decide (c.val ≥ 'a'.val) && decide (c.val ≤ 'z'.val))) ||
    (decide (c.val ≥ '0'.val) && decide (c.val ≤ '9'.val))) = true at h
  simp only [Bool.or_eq_true, Bool.and_eq_true, decide_eq_true_eq, ge_iff_le,
    UInt32.le_iff_toNat_le] at h
  exact h

lemma isAlphanum_of_isBlank (h : isBlank c = true) : c.isAlphanum = false := by
  simp only [isBlank, Bool.or_eq_true, Bool.and_eq_true, decide_eq_true_eq, beq_iff_eq] at h
  rw [Bool.eq_false_iff]
  intro hc
  have hcode := toNat_of_isAlphanum hc
  omega

lemma isWord_of_isBlank (h : isBlank c = true) : isWord c = false := by
  rw [isWord, isAlphanum_of_isBlank h, Bool.false_or, beq_eq_false_iff_ne]
  rintro rfl
  revert h
  decide

lemma isBlank_of_isWord (h : isWord c = true) : isBlank c = false := by
  cases hblank : isBlank c with
  | false => rfl
  | true =>
    rw [isWord_of_isBlank hblank] at h
    cases h

/-- A line feed, or a character of ASCII that prints. -/
def isOrdinary (c : Char) : Bool :=
  c == '\n' || (32 ≤ c.toNat && c.toNat ≤ 126)

lemma isOrdinary_of_mem_toDigits {n : Nat} (h : c ∈ Nat.toDigits 10 n) : isOrdinary c = true := by
  have hdigit := Nat.isDigit_of_mem_toDigits (by decide) (by decide) h
  simp only [Char.isDigit, Bool.and_eq_true, decide_eq_true_eq, ge_iff_le, UInt32.le_iff_toNat_le]
    at hdigit
  have hcode : 48 ≤ c.toNat ∧ c.toNat ≤ 57 := hdigit
  simp only [isOrdinary, Bool.or_eq_true, Bool.and_eq_true, decide_eq_true_eq]
  omega

end ScriptedNotes.Text
