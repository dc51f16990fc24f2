import ScriptedNotes.Proofs.Script.CommentStripping

/-!
Cutting into tokens line by line. No token, escape or comment goes over a line feed, so what stands
above a line feed and what stands below it are cut by themselves; the tokens below have their bytes
and lines counted on (`tokenize_append_feed_iff`). `lexing_induct` is the induction along a text as
it is cut: a token, a comment or a single blank is taken off its front.
-/

namespace ScriptedNotes.Script

open Text

/-! ### Along a text -/

/-- Whether a line ends here: the text is empty or begins with a line feed. -/
def AtLineEnd (s : List Char) : Prop :=
  ∀ c ∈ s.head?, c = '\n'

section Along

variable {pos line : Nat} {c : Char} {s t w rest : List Char}

lemma AtLineEnd.append_feed (h : AtLineEnd s) (t : List Char) : AtLineEnd (s ++ '\n' :: t) := by
  cases s with
  | nil =>
    intro c hc
    exact (Option.mem_some_iff.1 hc).symm
  | cons c s => exact h

lemma atLineEnd_dropWhile (s : List Char) : AtLineEnd (s.dropWhile (· ≠ '\n')) := by
  intro c hc
  have hstop := List.head?_dropWhile_not (· ≠ '\n') s
  rw [hc] at hstop
  simpa using hstop

lemma dropWhile_of_atLineEnd (hw : '\n' ∉ w) (h : AtLineEnd rest) :
    (w ++ rest).dropWhile (· ≠ '\n') = rest := by
  have hall : ∀ c ∈ w, decide (c ≠ '\n') = true := by
    intro c hc
    refine decide_eq_true ?_
    rintro rfl
    exact hw hc
  rw [List.dropWhile_append_of_pos hall]
  cases rest with
  | nil => rfl
  | cons d rest =>
    obtain rfl : d = '\n' := h d rfl
    rfl

lemma opensComment_append_of (h : opensComment w = true) (t : List Char) :
    opensComment (w ++ t) = true := by
  match w with
  | [] | [_] => cases h
  | _ :: _ :: _ => exact h

lemma byteSize_append (s t : List Char) : byteSize (s ++ t) = byteSize s + byteSize t := by
  have hfrom : ∀ (t : List Char) (n : Nat),
      t.foldl (fun n c => n + c.utf8Size) n = n + byteSize t := by
    intro t
    induction t with
    | nil => exact fun n => rfl
    | cons c t ih =>
      intro n
      rw [byteSize, List.foldl_cons, List.foldl_cons, ih, ih (0 + c.utf8Size)]
      omega
  rw [byteSize, List.foldl_append, hfrom]
  rfl

/-- A single blank is passed over. -/
lemma tokenizeFrom_blank (hc : isGap c = true) (pos line : Nat) (s : List Char) :
    tokenizeFrom pos line (c :: s) =
      tokenizeFrom (pos + byteSize [c]) (line + lineFeeds [c]) s := by
  have hrun : tokenizeFrom pos line (c :: s) =
      tokenizeFrom (pos + byteSize (c :: s.takeWhile isGap))
        (line + lineFeeds (c :: s.takeWhile isGap)) (s.dropWhile isGap) := by
    refine tokenizeFrom_gap (lexeme?_of_isGap hc s) ?_
    rw [List.cons_append, List.takeWhile_append_dropWhile]
  have hbytes : byteSize (c :: s.takeWhile isGap) = byteSize [c] + byteSize (s.takeWhile isGap) :=
    byteSize_append [c] _
  have hfeeds :
      lineFeeds (c :: s.takeWhile isGap) = lineFeeds [c] + lineFeeds (s.takeWhile isGap) :=
    lineFeeds_append [c] _
  rw [hrun, hbytes, hfeeds, ← Nat.add_assoc, ← Nat.add_assoc]
  match s with
  | [] => rfl
  | d :: s =>
    by_cases hd : isGap d = true
    · refine (tokenizeFrom_gap ?_ (eq_append_dropWhile isGap _)).symm
      rw [lexeme?_of_isGap hd, List.dropWhile_cons, if_pos hd]
    · rw [List.takeWhile_cons, List.dropWhile_cons, if_neg hd, if_neg hd]
      rfl

/-- A comment is passed over as well. -/
lemma tokenizeFrom_comment (hw : opensComment w = true) (hfeed : '\n' ∉ w) (h : AtLineEnd rest)
    (pos line : Nat) :
    tokenizeFrom pos line (w ++ rest) = tokenizeFrom (pos + byteSize w) line rest := by
  have hlexeme := lexeme?_comment (opensComment_append_of hw rest)
  rw [dropWhile_of_atLineEnd hfeed h] at hlexeme
  rw [tokenizeFrom_gap hlexeme rfl, lineFeeds_eq_zero hfeed, Nat.add_zero]

lemma tokenizeFrom_stuck (h : lexeme? (c :: s) = none) (pos line : Nat) :
    tokenizeFrom pos line (c :: s) = .error (stuckAt c line) := by
  rw [tokenizeFrom, h]

/-- **Induction along a text as it is cut into tokens.** -/
theorem lexing_induct {motive : List Char → Prop} (nil : motive [])
    (stuck : ∀ c s, lexeme? (c :: s) = none → motive (c :: s))
    (blank : ∀ c s, isGap c = true → motive s → motive (c :: s))
    (comment : ∀ w rest, opensComment w = true → '\n' ∉ w → AtLineEnd rest → motive rest →
      motive (w ++ rest))
    (token : ∀ t w rest, w ≠ [] → lexeme? (w ++ rest) = some (.token t, rest) → motive rest →
      motive (w ++ rest)) (s : List Char) : motive s := by
  induction hn : s.length using Nat.strong_induction_on generalizing s with
  | _ n ih =>
    have hbelow : ∀ {w rest}, w ≠ [] → s = w ++ rest → motive rest := by
      intro w rest hw he
      refine ih rest.length ?_ rest rfl
      have hpos := List.length_pos_iff.2 hw
      rw [← hn, he, List.length_append]
      omega
    by_cases hopen : opensComment s = true
    · have he := eq_append_dropWhile (· ≠ '\n') s
      have hw : opensComment (s.takeWhile (· ≠ '\n')) = true := by
        rcases s with _ | ⟨c, _ | ⟨d, s⟩⟩
        · cases hopen
        · cases hopen
        · simp only [opensComment, Bool.and_eq_true, Bool.or_eq_true, beq_iff_eq] at hopen
          obtain ⟨rfl | rfl, rfl⟩ := hopen <;> simp [opensComment]
      have hne : s.takeWhile (· ≠ '\n') ≠ [] := by
        intro hnil
        rw [hnil] at hw
        cases hw
      rw [he]
      refine comment _ _ hw ?_ (atLineEnd_dropWhile s) (hbelow hne he)
      intro hmem
      simpa using List.mem_takeWhile_imp hmem
    cases s with
    | nil => exact nil
    | cons c s =>
      cases hx : lexeme? (c :: s) with
      | none => exact stuck c s hx
      | some found =>
        obtain ⟨x, rest⟩ := found
        cases x with
        | gap =>
          have hgap := isGap_of_lexeme? (by simpa using hopen) hx
          exact blank c s hgap (hbelow (List.cons_ne_nil c []) rfl)
        | token t =>
          obtain ⟨w, hw, he⟩ := lexeme?_eq_append hx
          rw [he] at hx ⊢
          exact token t w rest hw hx (hbelow hw he)

end Along

/-! ### Above and below a line feed -/

/-- A token further down in a source, with the bytes and lines in front of it counted as well. -/
def Located.moved (bytes feeds : Nat) (t : Located) : Located :=
  ⟨t.token, t.start + bytes, t.stop + bytes, t.line + feeds⟩

/-- Where counting begins matters for the places of the tokens only. -/
lemma tokenizeFrom_moved (bytes feeds pos line : Nat) (s : List Char) :
    (tokenizeFrom (pos + bytes) (line + feeds) s).toOption =
      (tokenizeFrom pos line s).toOption.map (·.map (Located.moved bytes feeds)) := by
  induction s using lexing_induct generalizing pos line with
  | nil =>
    rw [tokenizeFrom, tokenizeFrom]
    rfl
  | stuck c s h =>
    rw [tokenizeFrom_stuck h, tokenizeFrom_stuck h]
    rfl
  | blank c s hc ih =>
    rw [tokenizeFrom_blank hc, tokenizeFrom_blank hc, ← ih, Nat.add_right_comm pos,
      Nat.add_right_comm line]
  | comment w rest hw hfeed hend ih =>
    rw [tokenizeFrom_comment hw hfeed hend, tokenizeFrom_comment hw hfeed hend, ← ih,
      Nat.add_right_comm pos]
  | token t w rest hw ht ih =>
    have hrest := ih (pos + byteSize w) (line + lineFeeds w)
    rw [tokenizeFrom_token ht rfl, tokenizeFrom_token ht rfl, Nat.add_right_comm pos bytes,
      Nat.add_right_comm line feeds]
    revert hrest
    generalize tokenizeFrom (pos + byteSize w + bytes) (line + lineFeeds w + feeds) rest = x
    generalize tokenizeFrom (pos + byteSize w) (line + lineFeeds w) rest = y
    intro hrest
    cases x with
    | error _ =>
      cases y with
      | error _ => rfl
      | ok _ => cases hrest
    | ok below =>
      cases y with
      | error _ => cases hrest
      | ok tokens =>
        obtain rfl : below = tokens.map (Located.moved bytes feeds) := Option.some.inj hrest
        rfl

/-- **A line feed cuts the work in two**: first what stands above it, then what stands below. -/
theorem tokenizeFrom_append_feed (pos line : Nat) (s tail : List Char) :
    tokenizeFrom pos line (s ++ '\n' :: tail) =
      (tokenizeFrom pos line s).bind fun above =>
        (tokenizeFrom (pos + (byteSize s + 1)) (line + (lineFeeds s + 1)) tail).map
          (above ++ ·) := by
  induction s using lexing_induct generalizing pos line with
  | nil =>
    rw [List.nil_append, tokenizeFrom_blank rfl, tokenizeFrom]
    show tokenizeFrom (pos + 1) (line + 1) tail = (tokenizeFrom (pos + 1) (line + 1) tail).map _
    cases tokenizeFrom (pos + 1) (line + 1) tail <;> rfl
  | stuck c s h =>
    have hnone : lexeme? (c :: (s ++ '\n' :: tail)) = none := by
      refine lexeme?_append_eq_none (.inl rfl) (fun hquote hopen => ?_) h
      have hne : c ≠ '\\' ∧ c ≠ '\n' := by rcases hquote with rfl | rfl <;> decide
      exact stringRest_append_lineFeed hne.1 hne.2 hopen tail
    rw [tokenizeFrom_stuck h, List.cons_append, tokenizeFrom_stuck hnone]
    rfl
  | blank c s hc ih =>
    have hbytes : byteSize (c :: s) = byteSize [c] + byteSize s := byteSize_append [c] s
    have hfeeds : lineFeeds (c :: s) = lineFeeds [c] + lineFeeds s := lineFeeds_append [c] s
    rw [List.cons_append, tokenizeFrom_blank hc, tokenizeFrom_blank hc, ih, hbytes, hfeeds]
    simp only [Nat.add_assoc]
  | comment w rest hw hfeed hend ih =>
    rw [List.append_assoc, tokenizeFrom_comment hw hfeed (hend.append_feed tail),
      tokenizeFrom_comment hw hfeed hend, ih, byteSize_append, lineFeeds_append,
      lineFeeds_eq_zero hfeed, Nat.zero_add]
    simp only [Nat.add_assoc]
  | token t w rest hw ht ih =>
    have hends : Ends (w ++ rest) ('\n' :: tail) := .inl rfl
    have ht' := lexeme?_append hends ht
    rw [List.append_assoc] at ht'
    rw [List.append_assoc, tokenizeFrom_token ht' rfl, tokenizeFrom_token ht rfl, ih,
      byteSize_append, lineFeeds_append]
    simp only [Nat.add_assoc]
    cases tokenizeFrom (pos + byteSize w) (line + lineFeeds w) rest with
    | error e => rfl
    | ok above =>
      show ((tokenizeFrom _ _ tail).map (above ++ ·)).map _ = (tokenizeFrom _ _ tail).map _
      cases tokenizeFrom (pos + (byteSize w + (byteSize rest + 1)))
        (line + (lineFeeds w + (lineFeeds rest + 1))) tail <;> rfl

/-- **Tokens are local to lines.** Two texts with a line feed between them can be cut into tokens
just when each of them can; the tokens are then those of the first, and those of the second moved
down by the bytes and lines of the first and of the line feed. -/
theorem tokenize_append_feed_iff (a b : List Char) (tokens : List Located) :
    tokenize (a ++ '\n' :: b) = .ok tokens ↔
      ∃ above below, tokenize a = .ok above ∧ tokenize b = .ok below ∧
        tokens = above ++ below.map (Located.moved (byteSize a + 1) (lineFeeds a + 1)) := by
  have hmoved := tokenizeFrom_moved (byteSize a + 1) (lineFeeds a + 1) 0 1 b
  unfold tokenize
  rw [tokenizeFrom_append_feed]
  revert hmoved
  generalize tokenizeFrom (0 + (byteSize a + 1)) (1 + (lineFeeds a + 1)) b = below'
  match tokenizeFrom 0 1 a, tokenizeFrom 0 1 b, below' with
  | .error _, _, _ => simp [Except.bind]
  | .ok above, .error _, .error _ => simp [Except.bind, Except.map]
  | .ok above, .ok below, .ok moved =>
    intro hmoved
    obtain rfl : moved = below.map (Located.moved _ _) := Option.some.inj hmoved
    simp [Except.bind, Except.map, eq_comm]
  | .ok _, .ok _, .error _ | .ok _, .error _, .ok _ => rintro ⟨⟩

end ScriptedNotes.Script
