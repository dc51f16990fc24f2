import ScriptedNotes.Proofs.Page.VaultContent

/-!
The exchange of texts for placeholders. A text is cut at its fences (`Fenced`): the vault takes the
fences and gives the text back with placeholders in their places, in which it finds no fence again
(`exists_fenced`). The placeholders it gives out over time are apart from each other, and each
brings its entry back (`exchange_lossless`).
-/

namespace ScriptedNotes.Page

open Text

variable {c : Char} {s t tag body rest lexeme : List Char}

/-! ### Reading a fence -/

lemma takeWhile_tag (htag : ∀ c ∈ tag, isWord c = true) (s : List Char) :
    (tag ++ '\n' :: s).takeWhile isWord = tag ∧
      (tag ++ '\n' :: s).dropWhile isWord = '\n' :: s := by
  have hstop : isWord '\n' = false := by decide
  constructor
  · rw [List.takeWhile_append_of_pos htag, List.takeWhile_cons_of_neg (by simp [hstop]),
      List.append_nil]
  · rw [List.dropWhile_append_of_pos htag, List.dropWhile_cons_of_neg (by simp [hstop])]

/-- Behind the line of its tag a fence is read up to the first mark. -/
lemma fencePattern_opening (htag : ∀ c ∈ tag, isWord c = true) (s : List Char) :
    fencePattern (fenceMark ++ (tag ++ '\n' :: s)) =
      (cut fenceMark s).map fun (body, rest) => ((tag, body), rest) := by
  obtain ⟨htake, hdrop⟩ := takeWhile_tag htag s
  have hafter : after? fenceMark (fenceMark ++ (tag ++ '\n' :: s)) = some (tag ++ '\n' :: s) :=
    after?_eq_some_iff.2 rfl
  simp only [fencePattern, hafter, bind, Option.bind_some, hdrop, htake]
  cases cut fenceMark s <;> rfl

/-- What is read as a fence opens one, and its body is cut at the first mark. -/
lemma cut_of_fencePattern (h : fencePattern s = some ((tag, body), rest)) :
    cut fenceMark (body ++ fenceMark ++ rest) = some (body, rest) := by
  obtain ⟨rfl, htag⟩ := fencePattern_eq_append h
  have hs : fenceMark ++ (tag ++ '\n' :: body) ++ fenceMark ++ rest =
      fenceMark ++ (tag ++ '\n' :: (body ++ fenceMark ++ rest)) := by simp
  rw [hs, fencePattern_opening htag] at h
  obtain ⟨⟨body', rest'⟩, hcut, he⟩ := Option.map_eq_some_iff.1 h
  cases he
  exact hcut

/-- A fence is read in the same way whatever stands behind it. -/
lemma fencePattern_append (h : fencePattern (lexeme ++ rest) = some ((tag, body), rest))
    (t : List Char) : fencePattern (lexeme ++ t) = some ((tag, body), t) := by
  obtain ⟨he, htag⟩ := fencePattern_eq_append h
  obtain rfl := List.append_cancel_right he
  have hfirst := (cut_eq_some_iff.1 (cut_of_fencePattern h)).2
  have ht : fenceMark ++ (tag ++ '\n' :: body) ++ fenceMark ++ t =
      fenceMark ++ (tag ++ '\n' :: (body ++ fenceMark ++ t)) := by simp
  rw [ht, fencePattern_opening htag, cut_eq_some_iff.2 ⟨rfl, hfirst⟩]
  rfl

lemma skipsLabels_fencePattern : SkipsLabels fencePattern := by
  intro c s hc
  have hne : '`' ≠ c := by
    rintro rfl
    cases hc
  simp [fencePattern, fenceMark, after?, hne]

/-! ### Texts cut at their fences -/

/-- A fence that goes into the vault: its tag is a word and not that of scripts, and its body goes
up to the first mark behind it. -/
structure Fence where
  tag : List Char
  body : List Char
  isWord_tag : ∀ c ∈ tag, isWord c = true
  tag_ne_scriptTag : tag ≠ scriptTag
  endsFirst : ∀ inside outside, body ++ fenceMark = inside ++ fenceMark ++ outside → outside = []

namespace Fence

def text (f : Fence) : List Char :=
  fenceText f.tag f.body

/-- What the vault keeps of a fence. -/
def kept (f : Fence) : CodeFence :=
  .ofMatch f.tag f.body

def ofMatch (h : fencePattern s = some ((tag, body), rest)) (htag : tag ≠ scriptTag) : Fence where
  tag := tag
  body := body
  isWord_tag := (fencePattern_eq_append h).2
  tag_ne_scriptTag := htag
  endsFirst := (cut_eq_some_iff.1 (cut_of_fencePattern h)).2

/-- The code is the body without a line feed at its end, and the language the usual name of the
tag. -/
lemma kept_eq (f : Fence) :
    (f.body = f.kept.code ++ ['\n'] ∨ f.body = f.kept.code ∧ f.body.getLast? ≠ some '\n') ∧
      f.kept.language = languageName? f.tag := by
  refine ⟨?_, rfl⟩
  by_cases hlast : f.body.getLast? = some '\n'
  · left
    have hcode : f.kept.code = f.body.dropLast := if_pos hlast
    rw [hcode, List.dropLast_append_getLast? '\n' hlast]
  · right
    have hcode : f.kept.code = f.body := if_neg hlast
    exact ⟨hcode.symm, hlast⟩

lemma mark_infix_text (f : Fence) (s : List Char) : fenceMark <:+: f.text ++ s := by
  refine List.IsInfix.trans ?_ (List.prefix_append f.text s).isInfix
  exact (List.suffix_append (fenceMark ++ (f.tag ++ '\n' :: f.body)) fenceMark).isInfix

end Fence

/-- A text cut at its fences: what stands before the first one, and each fence with what stands
between it and the next. -/
structure Fenced where
  head : List Char
  tail : List (Fence × List Char)

namespace Fenced

def text (F : Fenced) : List Char :=
  F.head ++ F.tail.flatMap fun (f, gap) => f.text ++ gap

/-- What the fences become in the vault. -/
def entries (F : Fenced) : List Vaulted :=
  F.tail.map fun (f, _) => .fence f.kept

/-- The text with placeholders for its fences, the first of them with the number `n`. -/
def answer (F : Fenced) (n : Nat) : List Char :=
  F.head ++ (F.tail.zipIdx n).flatMap fun ((f, gap), k) => label (.fence f.kept, k) ++ gap

variable {F : Fenced} {n : Nat}

/-- Text in front of the first fence stays where it is. -/
lemma text_prepend (w : List Char) : (⟨w ++ F.head, F.tail⟩ : Fenced).text = w ++ F.text :=
  List.append_assoc _ _ _

lemma answer_prepend (w : List Char) (n : Nat) :
    (⟨w ++ F.head, F.tail⟩ : Fenced).answer n = w ++ F.answer n :=
  List.append_assoc _ _ _

lemma text_cons (f : Fence) : (⟨[], (f, F.head) :: F.tail⟩ : Fenced).text = f.text ++ F.text :=
  List.append_assoc _ _ _

lemma answer_cons (f : Fence) (n : Nat) :
    (⟨[], (f, F.head) :: F.tail⟩ : Fenced).answer n =
      label (.fence f.kept, n) ++ F.answer (n + 1) :=
  List.append_assoc _ _ _

/-- What begins the answer and has no angle bracket begins the text. -/
lemma prefix_head {w : List Char} (hw : '<' ∉ w) (h : w <+: F.answer n) : w <+: F.head := by
  rcases List.prefix_or_prefix_of_prefix h (List.prefix_append F.head _) with hhead | ⟨l, rfl⟩
  · exact hhead
  · rw [answer, List.prefix_append_right_inj] at h
    obtain ⟨head, _ | ⟨⟨f, gap⟩, tail⟩⟩ := F
    · obtain rfl : l = [] := List.prefix_nil.1 h
      simp
    · obtain ⟨k, hk, -⟩ := label_eq_cons (.fence f.kept, n)
      change l <+: label (.fence f.kept, n) ++ gap ++ _ at h
      rw [hk] at h
      match l with
      | [] => simp
      | d :: l =>
        obtain ⟨rfl, -⟩ := List.cons_prefix_cons.1 h
        exact (hw (List.mem_append_right _ List.mem_cons_self)).elim

/-- Where no fence began before, none begins when the later fences have gone. -/
lemma fencePattern_answer (h : fencePattern (c :: F.text) = none) :
    fencePattern (c :: F.answer n) = none := by
  rw [Option.eq_none_iff_forall_ne_some]
  rintro ⟨⟨tag, body⟩, rest⟩ hread
  obtain ⟨he, htag⟩ := fencePattern_eq_append hread
  have hopening : '<' ∉ fenceMark ++ (tag ++ ['\n']) := by
    intro hmem
    rcases List.mem_append.1 hmem with hmem | hmem
    · exact absurd hmem (by decide)
    · rcases List.mem_append.1 hmem with hmem | hmem
      · exact absurd (htag _ hmem) (by decide)
      · exact absurd hmem (by decide)
  -- The opening of the fence stands before the first placeholder, so it has been in the text.
  obtain ⟨behind, hbehind⟩ : fenceMark ++ (tag ++ ['\n']) <+: c :: F.head := by
    refine prefix_head (F := ⟨c :: F.head, F.tail⟩) (n := n) hopening
      ⟨body ++ fenceMark ++ rest, ?_⟩
    show _ = c :: F.answer n
    rw [he]
    simp
  have htext : c :: F.text = fenceMark ++ (tag ++ '\n' :: (behind ++
      F.tail.flatMap fun (f, gap) => f.text ++ gap)) := by
    show c :: F.head ++ _ = _
    rw [← hbehind]
    simp
  rw [htext, fencePattern_opening htag, Option.map_eq_none_iff, cut_eq_none_iff] at h
  obtain ⟨head, _ | ⟨⟨f, gap⟩, tail⟩⟩ := F
  · -- Without a fence the answer is the text itself.
    change fencePattern (c :: (⟨head, []⟩ : Fenced).text) = _ at hread
    rw [htext, fencePattern_opening htag, cut_eq_none_iff.2 h] at hread
    cases hread
  · -- With one the opening was followed by a mark.
    refine h (List.IsInfix.trans ?_ (List.suffix_append behind _).isInfix)
    change fenceMark <:+: f.text ++ gap ++ _
    rw [List.append_assoc]
    exact f.mark_infix_text _

end Fenced

/-- The only fences in the text are those of scripts. -/
def Settled (s : List Char) : Prop :=
  ∀ lexeme tag body, .hit lexeme (tag, body) ∈ scan fencePattern s → tag = scriptTag

/-- **A vault exchanges exactly the fences of a text**, one placeholder for each, and finds none in
its own answer. -/
theorem exists_fenced (v : Vault) (s : List Char) :
    ∃ F : Fenced, F.text = s ∧ v.extract s = (F.answer v.size, ⟨v.entries ++ F.entries⟩) ∧
      Settled (F.answer v.size) := by
  simp only [extract_eq]
  induction s using advances_fencePattern.induct generalizing v with
  | nil =>
    refine ⟨⟨[], []⟩, rfl, ?_, fun lexeme tag body hmem => ?_⟩
    · rw [scan_nil]
      simp [replaceWith, Fenced.answer, Fenced.entries]
    · rw [show (⟨[], []⟩ : Fenced).answer v.size = [] from rfl, scan_nil] at hmem
      cases hmem
  | plain c s hnone ih =>
    obtain ⟨F, rfl, hextract, hsettled⟩ := ih v
    have hnone' := Fenced.fencePattern_answer (n := v.size) hnone
    refine ⟨⟨[c] ++ F.head, F.tail⟩, F.text_prepend [c], ?_, ?_⟩
    · rw [scan_plain hnone, replaceWith, hextract, F.answer_prepend]
      rfl
    · rw [F.answer_prepend]
      intro lexeme tag body hmem
      rw [List.singleton_append, scan_plain hnone'] at hmem
      exact hsettled lexeme tag body (by simpa using hmem)
  | hit lexeme found rest hlexeme hread ih =>
    obtain ⟨tag, body⟩ := found
    by_cases htag : tag = scriptTag
    · obtain ⟨F, rfl, hextract, hsettled⟩ := ih v
      have hread' := fencePattern_append hread (F.answer v.size)
      refine ⟨⟨lexeme ++ F.head, F.tail⟩, F.text_prepend lexeme, ?_, ?_⟩
      · have hkeep : stashFence v lexeme (tag, body) = (lexeme, v) := if_pos htag
        rw [scan_hit hlexeme hread, replaceWith, hkeep]
        simp only [hextract]
        rw [F.answer_prepend]
        rfl
      · rw [F.answer_prepend]
        intro lexeme' tag' body' hmem
        rw [scan_hit hlexeme hread'] at hmem
        rcases List.mem_cons.1 hmem with hmem | hmem
        · cases hmem
          exact htag
        · exact hsettled lexeme' tag' body' hmem
    · let f : Fence := .ofMatch hread htag
      let v' : Vault := (v.add (.fence f.kept)).2
      have hsize : v'.size = v.size + 1 := by simp [v', Vault.add, Vault.size]
      obtain ⟨F, rfl, hextract, hsettled⟩ := ih v'
      have hlexeme' : lexeme = f.text := List.append_cancel_right (fencePattern_eq_append hread).1
      refine ⟨⟨[], (f, F.head) :: F.tail⟩, ?_, ?_, ?_⟩
      · rw [F.text_cons, hlexeme']
      · have hadd : stashFence v lexeme (tag, body) = (label (.fence f.kept, v.size), v') :=
          if_neg htag
        rw [scan_hit hlexeme hread, replaceWith, hadd]
        simp only [hextract]
        rw [F.answer_cons, hsize]
        simp [v', Vault.add, Fenced.entries]
      · rw [F.answer_cons, ← hsize]
        intro lexeme' tag' body' hmem
        rw [scan_label skipsLabels_fencePattern] at hmem
        refine hsettled lexeme' tag' body' ?_
        simpa using hmem

/-! ### Requests -/

/-- What a vault is asked for: to keep a finished fragment, or to take the fences of a text. -/
inductive Request where
  | stash (html : List Char)
  | extract (text : List Char)

def Request.text : Request → List Char
  | .stash html => html
  | .extract text => text

/-- The answer to a request and the vault behind it. -/
def Vault.serve (v : Vault) : Request → List Char × Vault
  | .stash html => v.stash html
  | .extract text => v.extract text

/-- The vault behind a sequence of requests to an empty one. -/
def vaultAfter (requests : List Request) : Vault :=
  requests.foldl (fun v r => (v.serve r).2) ⟨[]⟩

/-- Nothing that the entries of the vault stand for has a placeholder. -/
def Vault.Clean (v : Vault) : Prop :=
  ∀ entry ∈ v.entries, reserved ∉ entry.html

lemma Fence.reserved_not_mem_html (f : Fence) (h : reserved ∉ f.body) :
    reserved ∉ f.kept.html :=
  not_mem_fenceHtml isOrdinary_reserved f.isWord_tag fun hmem => h (code_subset f.tag f.body hmem)

/-- The body of a fence stands in the text. -/
lemma Fenced.body_subset {F : Fenced} {f : Fence} {gap : List Char} (h : (f, gap) ∈ F.tail) :
    f.body ⊆ F.text := by
  intro c hc
  refine List.mem_append_right _ (List.mem_flatMap.2 ⟨(f, gap), h, List.mem_append_left _ ?_⟩)
  simp [Fence.text, fenceText, hc]

/-- One request keeps a vault clean. -/
lemma Vault.Clean.serve {v : Vault} (hv : v.Clean) {r : Request} (hr : reserved ∉ r.text) :
    (v.serve r).2.Clean := by
  cases r with
  | stash html =>
    intro entry hentry
    rcases List.mem_append.1 hentry with hentry | hentry
    · exact hv entry hentry
    · rw [List.mem_singleton.1 hentry]
      exact hr
  | extract text =>
    obtain ⟨F, rfl, hextract, -⟩ := exists_fenced v text
    intro entry hentry
    change entry ∈ (v.extract F.text).2.entries at hentry
    rw [hextract] at hentry
    rcases List.mem_append.1 hentry with hentry | hentry
    · exact hv entry hentry
    · obtain ⟨⟨f, gap⟩, hf, rfl⟩ := List.mem_map.1 hentry
      exact f.reserved_not_mem_html fun hmem => hr (Fenced.body_subset hf hmem)

lemma clean_vaultAfter {requests : List Request} (h : ∀ r ∈ requests, reserved ∉ r.text) :
    (vaultAfter requests).Clean := by
  have hfold : ∀ v : Vault, v.Clean → (requests.foldl (fun v r => (v.serve r).2) v).Clean := by
    induction requests with
    | nil => exact fun v hv => hv
    | cons r requests ih =>
      obtain ⟨hr, hrest⟩ := List.forall_mem_cons.1 h
      exact fun v hv => ih hrest _ (hv.serve hr)
  exact hfold ⟨[]⟩ fun entry hentry => absurd hentry List.not_mem_nil

/-- A placeholder stands in another one only if both have one number. -/
lemma number_eq_of_label_within {x y : Vaulted × Nat} (h : label x <:+: label y) : x.2 = y.2 := by
  by_contra hne
  have hcut := (Holds.label y).cut_label_eq_none (x := x) fun z hz => by
    rw [Multiset.mem_singleton.1 hz]
    exact Ne.symm hne
  exact cut_eq_none_iff.1 hcut h

lemma pairwise_labelled (v : Vault) :
    v.labelled.Pairwise fun x y => ¬ x.1 <:+: y.1 ∧ ¬ y.1 <:+: x.1 := by
  have hnumbers : v.entries.zipIdx.Pairwise fun x y => x.2 ≠ y.2 := by
    rw [← List.pairwise_map (R := (· ≠ ·)), List.zipIdx_map_snd]
    exact List.nodup_range'
  refine List.pairwise_map.2 (hnumbers.imp fun {x y} hne => ⟨fun h => hne ?_, fun h => hne ?_⟩)
  · exact number_eq_of_label_within h
  · exact (number_eq_of_label_within h).symm

/-- What a vault does: for the requests that it has served and for the next one. -/
structure Exchange (v : Vault) : Prop where
  /-- None of the placeholders given out stands in another one; so no two of them are equal. -/
  apart : v.labelled.Pairwise fun x y => ¬ x.1 <:+: y.1 ∧ ¬ y.1 <:+: x.1
  /-- A fragment gets the next placeholder. -/
  stash : ∀ html, v.stash html =
    (label (.fragment html, v.size), ⟨v.entries ++ [.fragment html]⟩)
  /-- The fences of a text get the next placeholders, the rest of the text stays as it is, and
  nothing is left to be taken out of the answer. -/
  extract : ∀ text, ∃ F : Fenced, F.text = text ∧
    v.extract text = (F.answer v.size, ⟨v.entries ++ F.entries⟩) ∧
    ∀ u : Vault, u.extract (F.answer v.size) = (F.answer v.size, u)
  /-- What is kept of a fence. -/
  kept : ∀ f : Fence,
    (f.body = f.kept.code ++ ['\n'] ∨ f.body = f.kept.code ∧ f.body.getLast? ≠ some '\n') ∧
      f.kept.language = languageName? f.tag
  /-- Each placeholder in a text gives way to what it stands for, and nothing else changes. -/
  restore : ∀ parts, CleanParts parts → (parts.filterMap Part.slot?).Nodup →
    (∀ x, .slot x ∈ parts → x ∈ v.entries.zipIdx) →
    v.restore (write label parts) = write (fun x => x.1.html) parts

/-- **A vault gives back what it takes.** This holds after every sequence of requests without the
reserved character. -/
theorem exchange_lossless (requests : List Request) (h : ∀ r ∈ requests, reserved ∉ r.text) :
    Exchange (vaultAfter requests) where
  apart := pairwise_labelled _
  stash _ := rfl
  extract text := by
    obtain ⟨F, htext, hextract, hsettled⟩ := exists_fenced (vaultAfter requests) text
    exact ⟨F, htext, hextract, fun u => extract_eq_self hsettled⟩
  kept := Fence.kept_eq
  restore _ hclean honce hslots := restore_parts hclean (clean_vaultAfter h) honce hslots

/-- A fragment, and a text with a fence and a script. -/
def twoRequests : List Request :=
  [.stash "<b>hi</b>".toList, .extract "a\n```js\nx < y\n```b\n```automation\nrun\n```".toList]

/-- The placeholders of both, the later one first. -/
def backwards : List Part :=
  (vaultAfter twoRequests).entries.zipIdx.reverse.map .slot

theorem exchange_lossless_backwards : (∀ r ∈ twoRequests, reserved ∉ r.text) ∧
    (vaultAfter twoRequests).restore (write label backwards) =
      "<pre><code class=\"language-javascript\">x &lt; y</code></pre><b>hi</b>".toList := by
  have hrequests : ∀ r ∈ twoRequests, reserved ∉ r.text := by
    intro r hr
    rcases List.mem_cons.1 hr with rfl | hr
    · decide
    · rw [List.mem_singleton.1 hr]
      decide
  have hslots :
      backwards.filterMap Part.slot? = (vaultAfter twoRequests).entries.zipIdx.reverse := by
    rw [backwards, List.filterMap_map]
    exact List.filterMap_some
  refine ⟨hrequests, ?_⟩
  rw [(exchange_lossless twoRequests hrequests).restore backwards]
  · decide +kernel
  · intro c hc
    obtain ⟨x, -, hx⟩ := List.mem_map.1 hc
    cases hx
  · rw [hslots, List.nodup_reverse]
    exact nodup_zipIdx _
  · intro x hx
    rw [← mem_slots, hslots, List.mem_reverse] at hx
    exact hx

end ScriptedNotes.Page
