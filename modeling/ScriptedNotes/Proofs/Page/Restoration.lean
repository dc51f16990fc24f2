import ScriptedNotes.Page.Vault
import ScriptedNotes.Proofs.Page.Placeholder

/-!
Emptying a vault. A text with placeholders is written by `Part`s, characters and slots. If each
entry of a vault has one slot at most, and what the entries stand for has no placeholder in it, then
replacing the first place of each placeholder fills every slot (`restore_parts`).
-/

namespace ScriptedNotes.Page

open Text

variable {M N : Multiset (Vaulted × Nat)} {c : Char} {s t rest : List Char} {x y : Vaulted × Nat}

/-! ### Parts -/

/-- A part of a page: a character, or the place of an entry of the vault. -/
inductive Part where
  | char (c : Char)
  | slot (x : Vaulted × Nat)

def Part.slot? : Part → Option (Vaulted × Nat)
  | .char _ => none
  | .slot x => some x

/-- The text of a page whose slots are filled in a way. -/
def write (fill : Vaulted × Nat → List Char) (parts : List Part) : List Char :=
  parts.flatMap fun
    | .char c => [c]
    | .slot x => fill x

/-- The characters of a page are not reserved. -/
def CleanParts (parts : List Part) : Prop :=
  ∀ c, .char c ∈ parts → c ≠ reserved

section

variable {fill fill' : Vaulted × Nat → List Char} {parts : List Part}

lemma write_append (fill : Vaulted × Nat → List Char) (ps qs : List Part) :
    write fill (ps ++ qs) = write fill ps ++ write fill qs := List.flatMap_append

lemma mem_slots : x ∈ parts.filterMap Part.slot? ↔ .slot x ∈ parts := by
  rw [List.mem_filterMap]
  constructor
  · rintro ⟨part, hpart, hx⟩
    cases part with
    | char c => cases hx
    | slot y =>
      cases hx
      exact hpart
  · exact fun h => ⟨_, h, rfl⟩

lemma write_congr (h : ∀ x, .slot x ∈ parts → fill x = fill' x) :
    write fill parts = write fill' parts := by
  induction parts with
  | nil => rfl
  | cons part parts ih =>
    have hrest := ih fun x hx => h x (List.mem_cons_of_mem _ hx)
    cases part with
    | char c => exact congrArg (c :: ·) hrest
    | slot x =>
      show fill x ++ write fill parts = fill' x ++ write fill' parts
      rw [h x List.mem_cons_self, hrest]

/-- A text that holds entries is written by parts with these slots. -/
theorem Holds.exists_parts (h : Holds M s) :
    ∃ parts, CleanParts parts ∧ (parts.filterMap Part.slot? : Multiset (Vaulted × Nat)) = M ∧
      s = write Page.label parts := by
  induction h with
  | nil => exact ⟨[], fun c hc => (List.not_mem_nil hc).elim, rfl, rfl⟩
  | @char M c s hc _ ih =>
    obtain ⟨parts, hclean, rfl, rfl⟩ := ih
    refine ⟨.char c :: parts, fun d hd => ?_, rfl, rfl⟩
    rcases List.mem_cons.1 hd with hd | hd
    · cases hd
      exact hc
    · exact hclean d hd
  | slot x _ ih =>
    obtain ⟨parts, hclean, rfl, rfl⟩ := ih
    refine ⟨.slot x :: parts, fun d hd => ?_, rfl, rfl⟩
    rcases List.mem_cons.1 hd with hd | hd
    · cases hd
    · exact hclean d hd

end

/-! ### The first place of a placeholder -/

lemma eq_of_append_dash {a b : List Char} (ha : '-' ∉ a) (hb : '-' ∉ b)
    (h : a ++ '-' :: s = b ++ '-' :: t) : a = b ∧ s = t := by
  induction a generalizing b with
  | nil =>
    cases b with
    | nil => exact ⟨rfl, (List.cons.inj h).2⟩
    | cons d b => exact (hb ((List.cons.inj h).1 ▸ List.mem_cons_self)).elim
  | cons c a ih =>
    cases b with
    | nil => exact (ha ((List.cons.inj h).1 ▸ List.mem_cons_self)).elim
    | cons d b =>
      obtain ⟨rfl, hrest⟩ := List.cons.inj h
      obtain ⟨rfl, rfl⟩ := ih (fun hmem => ha (List.mem_cons_of_mem _ hmem))
        (fun hmem => hb (List.mem_cons_of_mem _ hmem)) hrest
      exact ⟨rfl, rfl⟩

/-- Two placeholders that a text begins with are of the same number. -/
lemma number_eq_of_label (h : label x ++ s = label y ++ t) : x.2 = y.2 := by
  have hkind : ∀ entry : Vaulted, '-' ∉ entry.kind := fun entry hmem =>
    absurd (isAlphanum_of_mem_kind _ hmem) (by decide)
  have hdigits : ∀ n, '-' ∉ Nat.toDigits 10 n := fun n hmem =>
    absurd (Nat.isDigit_of_mem_toDigits (by decide) (by decide) hmem) (by decide)
  have hassoc : ∀ opening name kind digits closing u : List Char,
      (opening ++ reserved :: (name ++ kind ++ '-' :: digits ++ closing)) ++ u =
        opening ++ reserved :: (name ++ (kind ++ '-' :: (digits ++ (closing ++ u)))) := by simp
  have hlabel : ∀ z u, label z ++ u = "<!--".toList ++ reserved :: ("mne-".toList ++
      (z.1.kind ++ '-' :: (Nat.toDigits 10 z.2 ++ ("-->".toList ++ u)))) :=
    fun z u => (congrArg (· ++ u) (label_eq z)).trans (hassoc _ _ _ _ _ u)
  rw [hlabel, hlabel] at h
  have hrest := List.append_cancel_left (List.cons.inj (List.append_cancel_left h)).2
  obtain ⟨-, hrest⟩ := eq_of_append_dash (hkind x.1) (hkind y.1) hrest
  have hclosing : ∀ u, "-->".toList ++ u = '-' :: ('-' :: '>' :: u) := fun u => by rfl
  rw [hclosing, hclosing] at hrest
  obtain ⟨hnumber, -⟩ := eq_of_append_dash (hdigits x.2) (hdigits y.2) hrest
  rw [← Nat.ofDigitChars_toDigits (by decide : 1 < 10) (by decide) (n := x.2), hnumber,
    Nat.ofDigitChars_toDigits (by decide) (by decide)]

/-- No placeholder goes on behind an angle bracket that stands by itself. -/
lemma not_holds_behind_open (h : Holds M ("!--".toList ++ reserved :: s)) : False := by
  have h₁ : Holds M (reserved :: s) :=
    ((Holds.tail (by decide) h).tail (by decide)).tail (by decide)
  rcases h₁.cons_cases with ⟨hc, -⟩ | ⟨x, N, t, -, he, -⟩
  · exact hc rfl
  · obtain ⟨l, hl, -⟩ := label_eq_cons x
    rw [hl] at he
    exact absurd (List.cons.inj he).1 (by decide)

/-- The search for a placeholder passes over a text that holds none of its number. -/
theorem Holds.cut_append (hs : Holds M s) (ht : Holds N t) (h : ∀ y ∈ M, y.2 ≠ x.2) :
    cut (Page.label x) (s ++ t) =
      (cut (Page.label x) t).map fun (before, rest) => (s ++ before, rest) := by
  obtain ⟨l, hl, -⟩ := label_eq_cons x
  induction hs with
  | nil => simp
  | @char M c s hc hs ih =>
    rw [List.cons_append, cut, ih h, Option.map_map]
    cases hafter : after? (Page.label x) (c :: (s ++ t)) with
    | none => rfl
    | some u =>
      exfalso
      have he := after?_eq_some_iff.1 hafter
      rw [label_eq] at he
      have hbehind := (List.cons.inj he).2
      exact not_holds_behind_open (hbehind ▸ hs.append ht)
  | @slot M s y hs ih =>
    obtain ⟨k, hk, hk'⟩ := label_eq_cons y
    have hcut := ih fun z hz => h z (Multiset.mem_cons_of_mem hz)
    have hne := h y (Multiset.mem_cons_self y M)
    have hafter : after? (Page.label x) (Page.label y ++ s ++ t) = none := by
      rw [Option.eq_none_iff_forall_ne_some]
      intro u hu
      rw [after?_eq_some_iff, List.append_assoc] at hu
      exact hne (number_eq_of_label hu)
    rw [hk, List.cons_append, List.cons_append] at hafter ⊢
    rw [cut, hafter, List.append_assoc]
    rw [hl] at hcut ⊢
    rw [cut_skip hk', hcut]
    simp [Function.comp_def]

/-- The first place of a placeholder is where it stands, if none of its number stands before. -/
theorem Holds.cut_label (hs : Holds M s) (hrest : Holds N rest) (h : ∀ y ∈ M, y.2 ≠ x.2) :
    cut (Page.label x) (s ++ (Page.label x ++ rest)) = some (s, rest) := by
  have hhere : cut (Page.label x) (Page.label x ++ rest) = some ([], rest) := by
    obtain ⟨l, hl, -⟩ := label_eq_cons x
    rw [hl, List.cons_append, cut, after?_eq_some_iff.2 List.cons_append.symm]
  rw [hs.cut_append (.slot x hrest) h, hhere]
  simp

/-- A placeholder has no place in a text that holds none of its number. -/
theorem Holds.cut_label_eq_none (hs : Holds M s) (h : ∀ y ∈ M, y.2 ≠ x.2) :
    cut (Page.label x) s = none := by
  have hempty : cut (Page.label x) [] = none := by
    obtain ⟨l, hl, -⟩ := label_eq_cons x
    rw [hl]
    rfl
  have hcut := hs.cut_append .nil h
  rwa [List.append_nil, hempty] at hcut

/-! ### Filling the slots -/

/-- What stands in a slot when the entries below a number have been put in their places. -/
def filled (k : Nat) (x : Vaulted × Nat) : List Char :=
  if x.2 < k then x.1.html else label x

lemma restore_eq (v : Vault) (s : List Char) :
    v.restore s =
      v.entries.zipIdx.foldl (fun s x => replaceFirst (label x) x.1.html s) s := by
  rw [Vault.restore, Vault.labelled, List.foldl_map]
  rfl

section

variable {parts : List Part}

lemma write_filled_zero (parts : List Part) : write (filled 0) parts = write label parts :=
  write_congr fun x _ => if_neg (Nat.not_lt_zero x.2)

/-- Parts hold the entries of the slots that are not filled yet. -/
lemma holds_write {k : Nat} (hclean : CleanParts parts)
    (hhtml : ∀ x, .slot x ∈ parts → reserved ∉ x.1.html) :
    Holds ((parts.filterMap Part.slot?).filter (k ≤ ·.2) : List (Vaulted × Nat))
      (write (filled k) parts) := by
  induction parts with
  | nil => exact .nil
  | cons part parts ih =>
    have hrest := ih (fun c hc => hclean c (List.mem_cons_of_mem _ hc))
      fun x hx => hhtml x (List.mem_cons_of_mem _ hx)
    cases part with
    | char c => exact .char (hclean c List.mem_cons_self) hrest
    | slot x =>
      have hslots : (Part.slot x :: parts).filterMap Part.slot? = x :: parts.filterMap Part.slot? :=
        rfl
      show Holds _ (filled k x ++ write (filled k) parts)
      rw [hslots, List.filter_cons, filled]
      by_cases hk : x.2 < k
      · rw [if_pos hk, if_neg (by simpa using hk)]
        have hall := (Holds.plain (hhtml x List.mem_cons_self)).append hrest
        rwa [zero_add] at hall
      · rw [if_neg hk, if_pos (by simpa using hk)]
        exact .slot x hrest

/-- Filling the slots of a number changes nothing where there are none. -/
lemma write_filled_succ {k : Nat} (h : ∀ y, .slot y ∈ parts → y.2 ≠ k) :
    write (filled (k + 1)) parts = write (filled k) parts := by
  refine write_congr fun y hy => ?_
  have hne := h y hy
  have hiff : y.2 < k + 1 ↔ y.2 < k := by omega
  simp only [filled, hiff]

/-- Replacing the first place of a placeholder fills the slot of its entry. -/
lemma replaceFirst_write {before behind : List Part} {k : Nat} {x : Vaulted × Nat} (hx : x.2 = k)
    (hclean : CleanParts (before ++ .slot x :: behind))
    (hhtml : ∀ y, .slot y ∈ before ++ .slot x :: behind → reserved ∉ y.1.html)
    (hbefore : ∀ y, .slot y ∈ before → y.2 ≠ k) (hbehind : ∀ y, .slot y ∈ behind → y.2 ≠ k) :
    replaceFirst (label x) x.1.html (write (filled k) (before ++ .slot x :: behind)) =
      write (filled (k + 1)) (before ++ .slot x :: behind) := by
  have hlabel : filled k x = label x := if_neg (by omega)
  have hfill : filled (k + 1) x = x.1.html := if_pos (by omega)
  have hwrite : ∀ fill, write fill (before ++ .slot x :: behind) =
      write fill before ++ (fill x ++ write fill behind) := fun fill => write_append fill before _
  have hB : Holds _ (write (filled k) before) :=
    holds_write (fun c hc => hclean c (List.mem_append_left _ hc))
      fun y hy => hhtml y (List.mem_append_left _ hy)
  have hR : Holds _ (write (filled k) behind) :=
    holds_write (fun c hc => hclean c (List.mem_append_right _ (List.mem_cons_of_mem _ hc)))
      fun y hy => hhtml y (List.mem_append_right _ (List.mem_cons_of_mem _ hy))
  have hcut := hB.cut_label (x := x) hR fun y hy => by
    rw [hx]
    exact hbefore y (mem_slots.1 (List.mem_of_mem_filter (Multiset.mem_coe.1 hy)))
  rw [hwrite, hwrite, hlabel, hfill, write_filled_succ hbefore, write_filled_succ hbehind,
    replaceFirst, hcut]
  exact List.append_assoc _ _ _

/-- Replacing the first place of a placeholder changes nothing where there is no slot for it. -/
lemma replaceFirst_write_of_unused {k : Nat} {x : Vaulted × Nat} {html : List Char} (hx : x.2 = k)
    (hclean : CleanParts parts) (hhtml : ∀ y, .slot y ∈ parts → reserved ∉ y.1.html)
    (hunused : ∀ y, .slot y ∈ parts → y.2 ≠ k) :
    replaceFirst (label x) html (write (filled k) parts) = write (filled (k + 1)) parts := by
  have hcut := (holds_write (k := k) hclean hhtml).cut_label_eq_none (x := x) fun y hy => by
    rw [hx]
    exact hunused y (mem_slots.1 (List.mem_of_mem_filter (Multiset.mem_coe.1 hy)))
  rw [replaceFirst, hcut, write_filled_succ hunused]

/-- The slots that are not filled yet are filled one after another, if there is one at most for
each of the entries that are left. -/
lemma restore_from (entries : List Vaulted) (k : Nat) (hclean : CleanParts parts)
    (hhtml : ∀ x, .slot x ∈ parts → reserved ∉ x.1.html)
    (honce : (parts.filterMap Part.slot?).Nodup)
    (hleft : ∀ x, .slot x ∈ parts → k ≤ x.2 → x ∈ entries.zipIdx k) :
    (entries.zipIdx k).foldl (fun s x => replaceFirst (label x) x.1.html s)
      (write (filled k) parts) = write (fun x => x.1.html) parts := by
  induction entries generalizing k with
  | nil =>
    refine write_congr fun x hx => if_pos ?_
    by_contra hk
    exact absurd (hleft x hx (by omega)) List.not_mem_nil
  | cons entry entries ih =>
    -- The entry is the only one of its number: the others that are left have greater ones.
    have hnumber : ∀ y, .slot y ∈ parts → y.2 = k → y = (entry, k) := by
      intro y hy hk
      have hmem := hleft y hy (by omega)
      rw [List.zipIdx_cons, List.mem_cons] at hmem
      rcases hmem with hmem | hmem
      · exact hmem
      · exact absurd (List.le_snd_of_mem_zipIdx hmem) (by omega)
    rw [List.zipIdx_cons, List.foldl_cons]
    have hfill : replaceFirst (label (entry, k)) entry.html (write (filled k) parts) =
        write (filled (k + 1)) parts := by
      by_cases hslot : .slot (entry, k) ∈ parts
      · obtain ⟨before, behind, rfl⟩ := List.append_of_mem hslot
        have hslots : (before ++ .slot (entry, k) :: behind).filterMap Part.slot? =
            before.filterMap Part.slot? ++ (entry, k) :: behind.filterMap Part.slot? :=
          List.filterMap_append
        rw [hslots] at honce
        have hself := (List.nodup_cons.1 (List.nodup_middle.1 honce)).1
        refine replaceFirst_write rfl hclean hhtml (fun y hy hk => hself ?_)
          fun y hy hk => hself ?_
        · rw [← hnumber y (List.mem_append_left _ hy) hk]
          exact List.mem_append_left _ (mem_slots.2 hy)
        · rw [← hnumber y (List.mem_append_right _ (List.mem_cons_of_mem _ hy)) hk]
          exact List.mem_append_right _ (mem_slots.2 hy)
      · refine replaceFirst_write_of_unused rfl hclean hhtml fun y hy hk => hslot ?_
        rw [← hnumber y hy hk]
        exact hy
    rw [hfill]
    refine ih (k + 1) fun x hx hk => ?_
    have hmem := hleft x hx (by omega)
    rw [List.zipIdx_cons, List.mem_cons] at hmem
    rcases hmem with rfl | hmem
    · exact absurd hk (by simp)
    · exact hmem

/-- **Emptying a vault fills each slot with what its entry stands for**, if each entry has one slot
at most and nothing that is filled in has a placeholder. -/
theorem restore_parts {v : Vault} (hclean : CleanParts parts)
    (hhtml : ∀ entry ∈ v.entries, reserved ∉ entry.html)
    (honce : (parts.filterMap Part.slot?).Nodup)
    (hslots : ∀ x, .slot x ∈ parts → x ∈ v.entries.zipIdx) :
    v.restore (write label parts) = write (fun x => x.1.html) parts := by
  rw [restore_eq, ← write_filled_zero]
  exact restore_from v.entries 0 hclean
    (fun x hx => hhtml x.1 (List.fst_mem_of_mem_zipIdx (hslots x hx))) honce
    fun x hx _ => hslots x hx

lemma nodup_zipIdx {α : Type} (l : List α) : l.zipIdx.Nodup := by
  refine List.Nodup.of_map Prod.snd ?_
  rw [List.zipIdx_map_snd]
  exact List.nodup_range'

/-- Emptying a vault fills all slots in a text that has one for each entry. -/
theorem restore_write {v : Vault} (hclean : CleanParts parts)
    (hhtml : ∀ entry ∈ v.entries, reserved ∉ entry.html)
    (hperm : (parts.filterMap Part.slot?).Perm v.entries.zipIdx) :
    v.restore (write label parts) = write (fun x => x.1.html) parts :=
  restore_parts hclean hhtml (hperm.nodup_iff.2 (nodup_zipIdx v.entries))
    fun _ hx => hperm.mem_iff.1 (mem_slots.2 hx)

end

end ScriptedNotes.Page
