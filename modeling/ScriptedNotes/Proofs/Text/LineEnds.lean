import Mathlib.Data.List.Induction
import ScriptedNotes.Proofs.Text.Scanning

/-!
Line ends. A text may have a carriage return before each line feed (`withReturns`); its lines and
its trimmed text are the same but for the returns, and so are the places of patterns that have no
line end in them. `Returned s t` says that `s` is `t` with a return before some of its line feeds;
replacing a part of such texts keeps them so.
-/

namespace ScriptedNotes.Text

/-- The text with a carriage return before each line feed. -/
def withReturns (s : List Char) : List Char :=
  s.flatMap fun c => if c = '\n' then ['\r', '\n'] else [c]

section

variable {c : Char} {s t pattern : List Char}

@[simp] lemma withReturns_nil : withReturns [] = [] := rfl

@[simp] lemma withReturns_feed (s : List Char) :
    withReturns ('\n' :: s) = '\r' :: '\n' :: withReturns s := rfl

lemma withReturns_cons (h : c ≠ '\n') (s : List Char) :
    withReturns (c :: s) = c :: withReturns s := by
  simp [withReturns, h]

@[simp] lemma withReturns_append (s t : List Char) :
    withReturns (s ++ t) = withReturns s ++ withReturns t :=
  List.flatMap_append

lemma withReturns_eq_nil_iff : withReturns s = [] ↔ s = [] := by
  cases s with
  | nil => simp
  | cons c s =>
    by_cases hc : c = '\n'
    · rw [hc, withReturns_feed]
      simp
    · rw [withReturns_cons hc]
      simp

lemma withReturns_of_not_mem (h : '\n' ∉ s) : withReturns s = s := by
  induction s with
  | nil => rfl
  | cons c s ih =>
    rw [List.mem_cons, not_or] at h
    rw [withReturns_cons (Ne.symm h.1), ih h.2]

/-! ### Lines -/

/-- Before each line feed stands a return. -/
lemma head?_withReturns (s : List Char) : (withReturns s).head? ≠ some '\n' := by
  cases s with
  | nil => simp
  | cons c s =>
    by_cases hc : c = '\n'
    · rw [hc, withReturns_feed]
      simp
    · rw [withReturns_cons hc]
      simpa using hc

lemma eq_return_of_infix (h : [c, '\n'] <:+: withReturns s) : c = '\r' := by
  have hhead : ∀ {d : Char} {u : List Char}, ¬ [d, '\n'] <+: d :: withReturns u := by
    intro d u hprefix
    obtain ⟨rest, hrest⟩ := (List.prefix_cons_inj d).1 hprefix
    refine head?_withReturns u ?_
    rw [← hrest]
    rfl
  induction s with
  | nil => simp at h
  | cons d s ih =>
    by_cases hd : d = '\n'
    · rw [hd, withReturns_feed, List.infix_cons_iff, List.infix_cons_iff] at h
      rcases h with h | h | h
      · exact (List.cons_prefix_cons.1 h).1
      · obtain rfl := (List.cons_prefix_cons.1 h).1
        exact (hhead h).elim
      · exact ih h
    · rw [withReturns_cons hd, List.infix_cons_iff] at h
      rcases h with h | h
      · obtain rfl := (List.cons_prefix_cons.1 h).1
        exact (hhead h).elim
      · exact ih h

/-- Leaving out the returns before line feeds gives the text back. -/
lemma unixLines_withReturns (h : '\r' ∉ s) : unixLines (withReturns s) = s := by
  induction s with
  | nil => rfl
  | cons c s ih =>
    rw [List.mem_cons, not_or] at h
    by_cases hc : c = '\n'
    · rw [hc, withReturns_feed, unixLines, ih h.2]
    · rw [withReturns_cons hc, unixLines, ih h.2]
      intro _ hreturn
      exact (h.1 hreturn.symm).elim

lemma unixLines_of_not_mem (h : '\r' ∉ s) : unixLines s = s := by
  induction s with
  | nil => rfl
  | cons c s ih =>
    rw [List.mem_cons, not_or] at h
    rw [unixLines, ih h.2]
    intro _ hreturn
    exact (h.1 hreturn.symm).elim

lemma lines_append_feed (h : '\n' ∉ s) (t : List Char) :
    lines (s ++ '\n' :: t) = dropReturn s :: lines t := by
  have hpieces : pieces (s ++ '\n' :: t) = s :: pieces t := by
    unfold pieces
    rw [List.splitOn_append_cons_self, List.splitOn_eq_singleton h]
    rfl
  unfold lines
  rw [hpieces, closeLines]
  exact List.splitOn_ne_nil _ _

/-- A text is one line, or it is a line, a line feed, and the rest. -/
lemma eq_append_feed (s : List Char) :
    '\n' ∉ s ∨ ∃ l rest, '\n' ∉ l ∧ s = l ++ '\n' :: rest := by
  by_cases h : '\n' ∈ s
  · obtain ⟨l, rest, he, hl⟩ := List.eq_append_cons_of_mem h
    exact .inr ⟨l, rest, hl, he⟩
  · exact .inl h

/-- The lines of a text do not have the returns. -/
lemma lines_withReturns (h : '\r' ∉ s) : lines (withReturns s) = lines s := by
  induction hn : s.length using Nat.strong_induction_on generalizing s with
  | _ n ih =>
    rcases eq_append_feed s with hs | ⟨l, rest, hl, rfl⟩
    · rw [withReturns_of_not_mem hs]
    · rw [List.mem_append, List.mem_cons, not_or, not_or] at h
      have hlt : rest.length < n := by
        rw [← hn, List.length_append, List.length_cons]
        omega
      have hreturn : '\n' ∉ l ++ ['\r'] := by
        simpa using hl
      have hdrop : dropReturn l = l :=
        if_neg fun hlast => h.1 (List.mem_of_getLast? hlast)
      have hdrop' : dropReturn (l ++ ['\r']) = l := by
        unfold dropReturn
        rw [List.getLast?_concat, if_pos rfl, List.dropLast_concat]
      calc lines (withReturns (l ++ '\n' :: rest))
          = lines ((l ++ ['\r']) ++ '\n' :: withReturns rest) := by
            rw [withReturns_append, withReturns_feed, withReturns_of_not_mem hl, List.append_assoc]
            rfl
        _ = l :: lines (withReturns rest) := by rw [lines_append_feed hreturn, hdrop']
        _ = l :: lines rest := by rw [ih rest.length hlt h.2.2 rfl]
        _ = lines (l ++ '\n' :: rest) := by rw [lines_append_feed hl, hdrop]

/-! ### Trimming -/

lemma trimStart_withReturns (s : List Char) :
    trimStart (withReturns s) = withReturns (trimStart s) := by
  unfold trimStart
  induction s with
  | nil => rfl
  | cons c s ih =>
    by_cases hc : c = '\n'
    · rw [hc, withReturns_feed]
      exact ih
    · rw [withReturns_cons hc, List.dropWhile_cons, List.dropWhile_cons]
      split
      · exact ih
      · exact (withReturns_cons hc s).symm

lemma trimEnd_concat (s : List Char) (c : Char) :
    trimEnd (s ++ [c]) = if isBlank c then trimEnd s else s ++ [c] := by
  unfold trimEnd
  rw [List.reverse_concat, List.dropWhile_cons]
  split
  · rfl
  · rw [List.reverse_cons, List.reverse_reverse]

lemma trimEnd_withReturns (s : List Char) : trimEnd (withReturns s) = withReturns (trimEnd s) := by
  induction s using List.reverseRecOn with
  | nil => rfl
  | append_singleton s c ih =>
    rw [trimEnd_concat, withReturns_append]
    by_cases hc : c = '\n'
    · have hfeed : withReturns ['\n'] = ['\r'] ++ ['\n'] := rfl
      have hblanks : isBlank '\n' = true ∧ isBlank '\r' = true := by decide
      rw [hc, hfeed, ← List.append_assoc, trimEnd_concat, if_pos hblanks.1, trimEnd_concat,
        if_pos hblanks.2, if_pos hblanks.1, ih]
    · have hsingle : withReturns [c] = [c] := withReturns_cons hc []
      rw [hsingle, trimEnd_concat, ih]
      split
      · rfl
      · rw [withReturns_append, hsingle]

lemma trim_withReturns (s : List Char) : trim (withReturns s) = withReturns (trim s) := by
  unfold trim
  rw [trimStart_withReturns, trimEnd_withReturns]

lemma trim_concat_of_isBlank (h : isBlank c = true) (s : List Char) : trim (s ++ [c]) = trim s := by
  unfold trim trimStart
  rw [List.dropWhile_append]
  split
  · next hempty =>
    rw [List.isEmpty_iff.1 hempty, List.dropWhile_cons, if_pos h]
    rfl
  · rw [trimEnd_concat, if_pos h]

/-! ### Places of patterns -/

lemma after?_withReturns (hfeed : '\n' ∉ pattern) (hreturn : '\r' ∉ pattern) (s : List Char) :
    after? pattern (withReturns s) = (after? pattern s).map withReturns := by
  induction pattern generalizing s with
  | nil => rfl
  | cons p pattern ih =>
    rw [List.mem_cons, not_or] at hfeed hreturn
    cases s with
    | nil => rfl
    | cons c s =>
      by_cases hc : c = '\n'
      · rw [hc, withReturns_feed, after?, after?, if_neg (Ne.symm hreturn.1),
          if_neg (Ne.symm hfeed.1)]
        rfl
      · rw [withReturns_cons hc, after?, after?, ih hfeed.2 hreturn.2]
        split <;> rfl

/-- Before a mark behind a line feed stands one more return. -/
lemma cut_withReturns {mark : List Char} (hfeed : '\n' ∉ mark) (hreturn : '\r' ∉ mark)
    (s : List Char) :
    cut ('\n' :: mark) (withReturns s) =
      (cut ('\n' :: mark) s).map fun (before, rest) =>
        (withReturns before ++ ['\r'], withReturns rest) := by
  induction s with
  | nil => rfl
  | cons c s ih =>
    by_cases hc : c = '\n'
    · rw [hc, withReturns_feed, cut, after?, if_neg (by decide), cut, after?, if_pos rfl,
        after?_withReturns hfeed hreturn, cut, after?, if_pos rfl]
      cases after? mark s with
      | some rest => rfl
      | none =>
        rw [Option.map_none, ih]
        cases cut ('\n' :: mark) s <;> rfl
    · rw [withReturns_cons hc, cut, after?, if_neg (Ne.symm hc), cut, after?,
        if_neg (Ne.symm hc), ih]
      cases cut ('\n' :: mark) s with
      | none => rfl
      | some found =>
        show some (c :: (withReturns found.1 ++ ['\r']), _) =
          some (withReturns (c :: found.1) ++ _, _)
        rw [withReturns_cons hc]
        rfl

end

/-! ### Returns before some line feeds -/

/-- The first text is the second with a carriage return before some of its line feeds. -/
inductive Returned : List Char → List Char → Prop
  | nil : Returned [] []
  | char {s t : List Char} (c : Char) : Returned s t → Returned (c :: s) (c :: t)
  | feed {s t : List Char} : Returned s t → Returned ('\r' :: '\n' :: s) ('\n' :: t)

namespace Returned

variable {s t u v pattern : List Char}

lemma refl (s : List Char) : Returned s s := by
  induction s with
  | nil => exact .nil
  | cons c s ih => exact .char c ih

lemma append (h : Returned s t) (h' : Returned u v) : Returned (s ++ u) (t ++ v) := by
  induction h with
  | nil => exact h'
  | char c _ ih => exact .char c ih
  | feed _ ih => exact .feed ih

lemma of_withReturns (s : List Char) : Returned (withReturns s) s := by
  induction s with
  | nil => exact .nil
  | cons c s ih =>
    by_cases hc : c = '\n'
    · rw [hc, withReturns_feed]
      exact .feed ih
    · rw [withReturns_cons hc]
      exact .char c ih

/-- Without the returns the texts are the same. -/
lemma filter_eq (h : Returned s t) (ht : '\r' ∉ t) : s.filter (· ≠ '\r') = t := by
  induction h with
  | nil => rfl
  | char c _ ih =>
    rw [List.mem_cons, not_or] at ht
    rw [List.filter_cons_of_pos (by simpa using Ne.symm ht.1), ih ht.2]
  | feed _ ih =>
    rw [List.mem_cons, not_or] at ht
    rw [List.filter_cons_of_neg (by decide), List.filter_cons_of_pos (by decide), ih ht.2]

section

variable (hfeed : '\n' ∉ pattern) (hreturn : '\r' ∉ pattern)
include hfeed hreturn

lemma after? (h : Returned s t) :
    Option.Rel Returned (after? pattern s) (after? pattern t) := by
  induction h generalizing pattern with
  | nil => cases pattern <;> constructor; exact .nil
  | @char s t c h ih =>
    cases pattern with
    | nil => exact .some (.char c h)
    | cons p pattern =>
      rw [List.mem_cons, not_or] at hfeed hreturn
      unfold Text.after?
      split
      · exact ih hfeed.2 hreturn.2
      · exact .none
  | @feed s t h _ =>
    cases pattern with
    | nil => exact .some (.feed h)
    | cons p pattern =>
      rw [List.mem_cons, not_or] at hfeed hreturn
      rw [Text.after?, if_neg (Ne.symm hreturn.1), Text.after?, if_neg (Ne.symm hfeed.1)]
      exact .none

/-- A pattern without line ends has its first place in both texts. -/
lemma cut (h : Returned s t) :
    Option.Rel (fun x y => Returned x.1 y.1 ∧ Returned x.2 y.2) (cut pattern s)
      (cut pattern t) := by
  induction h with
  | nil =>
    rw [Text.cut]
    split
    · exact .some ⟨.nil, .nil⟩
    · exact .none
  | @char s t c h ih =>
    have hafter := (Returned.char c h).after? hfeed hreturn
    unfold Text.cut
    revert hafter ih
    generalize Text.after? pattern (c :: s) = x
    generalize Text.after? pattern (c :: t) = y
    generalize Text.cut pattern s = z
    generalize Text.cut pattern t = w
    rintro (⟨hbefore, hrest⟩ | -) (hbehind | -)
    · exact .some ⟨.nil, hbehind⟩
    · exact .some ⟨.char c hbefore, hrest⟩
    · exact .some ⟨.nil, hbehind⟩
    · exact .none
  | @feed s t h ih =>
    cases pattern with
    | nil => exact .some ⟨.nil, .feed h⟩
    | cons p pattern =>
      have hfeed' := List.ne_of_not_mem_cons hfeed
      have hreturn' := List.ne_of_not_mem_cons hreturn
      rw [Text.cut, Text.after?, if_neg (Ne.symm hreturn'), Text.cut, Text.after?,
        if_neg (Ne.symm hfeed'), Text.cut, Text.after?, if_neg (Ne.symm hfeed')]
      revert ih
      generalize Text.cut (p :: pattern) s = z
      generalize Text.cut (p :: pattern) t = w
      rintro (⟨hbefore, hrest⟩ | -)
      · exact .some ⟨.feed hbefore, hrest⟩
      · exact .none

lemma replaceFirst (h : Returned s t) (hreplaced : Returned u v) :
    Returned (replaceFirst pattern u s) (replaceFirst pattern v t) := by
  have hcut := h.cut hfeed hreturn
  unfold Text.replaceFirst
  revert hcut
  generalize Text.cut pattern s = x
  generalize Text.cut pattern t = y
  rintro (⟨hbefore, hrest⟩ | -)
  · exact (hbefore.append hreplaced).append hrest
  · exact h

end

end Returned

end ScriptedNotes.Text
