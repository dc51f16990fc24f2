import ScriptedNotes.Proofs.Page.Layout
import ScriptedNotes.Proofs.Page.Marks
import ScriptedNotes.Proofs.Page.Restoration
import ScriptedNotes.Proofs.Page.Vaulting
import ScriptedNotes.Proofs.Script.Message

/-!
The characters of a page. The markup, the messages about scripts and the names of languages are made
of ordinary characters, so any other one that stands in a page stands in its note, apart from the
reserved one of placeholders that are left over (`not_mem_page`).
-/

namespace ScriptedNotes.Page

open Text

variable {x c : Char} {s t text : List Char} {ts : List (List Char)}

section

variable (hx : isOrdinary x = false)
include hx

lemma not_mem_of_ordinary (h : s.all isOrdinary = true) : x ∉ s := by
  intro hmem
  rw [List.all_eq_true.1 h x hmem] at hx
  cases hx

/-! ### Scripts -/

lemma not_mem_escape (h : x ∉ s) : x ∉ escape s := by
  intro hmem
  obtain ⟨c, hc, hmem⟩ := List.mem_flatMap.1 hmem
  unfold escapeChar at hmem
  split at hmem
  · exact not_mem_of_ordinary hx (by decide) hmem
  · exact not_mem_of_ordinary hx (by decide) hmem
  · exact not_mem_of_ordinary hx (by decide) hmem
  · exact not_mem_of_ordinary hx (by decide) hmem
  · exact not_mem_of_ordinary hx (by decide) hmem
  · exact h (List.mem_singleton.1 hmem ▸ hc)

lemma not_mem_of_drawnFrom {e : String} (h : Script.DrawnFrom s e) (hs : x ∉ s) :
    x ∉ e.toList := by
  intro hmem
  rcases h x hmem with hmem | hordinary
  · exact hs hmem
  · rw [hordinary] at hx
    cases hx

lemma not_mem_toDigits (n : Nat) : x ∉ Nat.toDigits 10 n :=
  not_mem_of_ordinary hx (List.all_eq_true.2 fun _ => isOrdinary_of_mem_toDigits)

lemma not_mem_id (b : ScriptBlock) : x ∉ b.id.toList := by
  rw [ScriptBlock.id, String.toList_append]
  refine List.not_mem_append (not_mem_of_ordinary hx (by decide)) ?_
  show x ∉ b.number.repr.toList
  rw [Nat.toList_repr]
  exact not_mem_toDigits hx b.number

/-- The fragment of a script shows its source and, if it is none, a message about it. -/
lemma not_mem_scriptHtml {source : List Char} (number : Nat) (h : x ∉ source) :
    x ∉ scriptHtml (.ofSource number source) := by
  have htrim : x ∉ trim source := fun hmem => h (trim_subset source hmem)
  have hsource : x ∉ escape (ScriptBlock.ofSource number source).source :=
    not_mem_escape hx htrim
  have hid := not_mem_id hx (.ofSource number source)
  have hfixed : ∀ {l : List Char}, l.all isOrdinary = true → x ∉ l := not_mem_of_ordinary hx
  unfold scriptHtml
  dsimp only
  split
  · iterate 4 refine List.not_mem_append ?_ (hfixed (by decide))
    refine List.not_mem_append ?_ hsource
    iterate 2 refine List.not_mem_append ?_ (hfixed (by decide))
    refine List.not_mem_append ?_ hid
    iterate 5 refine List.not_mem_append ?_ (hfixed (by decide))
    exact List.not_mem_append (hfixed (by decide)) hid
  · next e he =>
    have hmessage : x ∉ escape e.message.toList :=
      not_mem_escape hx (not_mem_of_drawnFrom hx (Script.compile_drawnFrom he) htrim)
    refine List.not_mem_append (List.not_mem_append ?_ hmessage) (hfixed (by decide))
    iterate 2 refine List.not_mem_append ?_ (hfixed (by decide))
    refine List.not_mem_append ?_ hsource
    iterate 5 refine List.not_mem_append ?_ (hfixed (by decide))
    exact List.not_mem_append (hfixed (by decide)) hid

end

/-! ### Fences -/

lemma isOrdinary_of_isWord (h : isWord c = true) : isOrdinary c = true := by
  rw [isWord, Bool.or_eq_true, beq_iff_eq] at h
  rcases h with h | rfl
  · have hcode := toNat_of_isAlphanum h
    simp only [isOrdinary, Bool.or_eq_true, Bool.and_eq_true, decide_eq_true_eq]
    omega
  · decide

lemma isOrdinary_lowerChar (h : isOrdinary c = true) : isOrdinary (lowerChar c) = true := by
  have hlower : ∀ n < 128, isOrdinary (Char.ofNat n) = true →
      isOrdinary (Char.ofNat n).toLower = true := by decide
  have hascii : c.toNat < 128 := by
    simp only [isOrdinary, Bool.or_eq_true, Bool.and_eq_true, decide_eq_true_eq, beq_iff_eq] at h
    rcases h with rfl | h
    · decide
    · omega
  have hc := hlower c.toNat hascii
  rw [Char.ofNat_toNat] at hc
  rw [lowerChar, if_pos hascii]
  exact hc h

/-- Lower case keeps a text ordinary. -/
lemma isOrdinary_of_mem_lowerAfter {before : List Char} (h : ∀ c ∈ s, isOrdinary c = true) :
    ∀ c ∈ lowerAfter before s, isOrdinary c = true := by
  induction s generalizing before with
  | nil => exact fun c hc => (List.not_mem_nil hc).elim
  | cons c s ih =>
    obtain ⟨hc, hs⟩ := List.forall_mem_cons.1 h
    have hsigma : c ≠ 'Σ' := by
      rintro rfl
      exact absurd hc (by decide)
    have hdotted : c ≠ 'İ' := by
      rintro rfl
      exact absurd hc (by decide)
    intro d hd
    rw [lowerAfter, if_neg hsigma, if_neg hdotted] at hd
    rcases List.mem_cons.1 hd with rfl | hd
    · exact isOrdinary_lowerChar hc
    · exact ih hs d hd

lemma code_subset (tag body : List Char) : (CodeFence.ofMatch tag body).code ⊆ body := by
  show (if body.getLast? = some '\n' then body.dropLast else body) ⊆ body
  split_ifs
  · exact List.dropLast_subset body
  · exact List.Subset.refl body

section

variable (hx : isOrdinary x = false)
include hx

lemma not_mem_languageName {tag name : List Char} (htag : ∀ c ∈ tag, isWord c = true)
    (h : languageName? tag = some name) : x ∉ name := by
  have hlower : x ∉ lower (trim tag) := not_mem_of_ordinary hx <| List.all_eq_true.2 <|
    isOrdinary_of_mem_lowerAfter fun c hc => isOrdinary_of_isWord (htag c (trim_subset tag hc))
  have hname : x ∉ (String.ofList (lower (trim tag))).toList := by
    rwa [String.toList_ofList]
  unfold languageName? at h
  dsimp only at h
  split_ifs at h <;> cases h <;> first | exact not_mem_of_ordinary hx (by decide) | exact hname

lemma not_mem_fenceHtml {tag body : List Char} (htag : ∀ c ∈ tag, isWord c = true)
    (hcode : x ∉ (CodeFence.ofMatch tag body).code) : x ∉ (CodeFence.ofMatch tag body).html := by
  have hescaped := not_mem_escape hx hcode
  have hfixed : ∀ {l : List Char}, l.all isOrdinary = true → x ∉ l := not_mem_of_ordinary hx
  unfold CodeFence.html
  dsimp only
  refine List.not_mem_append (List.not_mem_append ?_ hescaped) (hfixed (by decide))
  split
  · next language hlanguage =>
    have hname := not_mem_escape hx (not_mem_languageName hx htag hlanguage)
    exact List.not_mem_append (List.not_mem_append (hfixed (by decide)) hname) (hfixed (by decide))
  · exact hfixed (by decide)

end

/-! ### The vault -/

/-- Replacing hits brings no character in that the replacements do not bring in, and keeps what each
of them keeps of the state. -/
lemma not_mem_replaceWith {α β : Type} {f : β → List Char → α → List Char × β} {I : β → Prop}
    {ps : List (Piece α)} (hplain : ∀ c, .plain c ∈ ps → x ≠ c)
    (hhit : ∀ lexeme a, .hit lexeme a ∈ ps → ∀ state, I state →
      x ∉ (f state lexeme a).1 ∧ I (f state lexeme a).2)
    {state : β} (h : I state) :
    x ∉ (replaceWith f state ps).1 ∧ I (replaceWith f state ps).2 := by
  induction ps generalizing state with
  | nil => exact ⟨List.not_mem_nil, h⟩
  | cons piece ps ih =>
    have hlater : ∀ {state}, I state →
        x ∉ (replaceWith f state ps).1 ∧ I (replaceWith f state ps).2 :=
      ih (fun c hc => hplain c (List.mem_cons_of_mem _ hc))
        fun lexeme a ha => hhit lexeme a (List.mem_cons_of_mem _ ha)
    cases piece with
    | plain c =>
      obtain ⟨hrest, hstate⟩ := hlater h
      exact ⟨List.not_mem_cons_of_ne_of_not_mem (hplain c List.mem_cons_self) hrest, hstate⟩
    | hit lexeme a =>
      obtain ⟨hhere, hnext⟩ := hhit lexeme a List.mem_cons_self state h
      obtain ⟨hrest, hstate⟩ := hlater hnext
      exact ⟨List.not_mem_append hhere hrest, hstate⟩

lemma ne_of_mem_scan {α : Type} {p : Pattern α} (hp : p.Advances) (h : x ∉ s) :
    ∀ c, .plain c ∈ scan p s → x ≠ c := by
  rintro c hc rfl
  refine h ?_
  rw [← flatMap_text_scan hp s]
  exact List.mem_flatMap.2 ⟨_, hc, List.mem_singleton.2 rfl⟩

/-- None of the entries has a character. -/
def Vault.Lacks (x : Char) (v : Vault) : Prop :=
  ∀ entry ∈ v.entries, x ∉ entry.html

lemma Vault.Lacks.add {v : Vault} {entry : Vaulted} (h : v.Lacks x) (hentry : x ∉ entry.html) :
    (v.add entry).2.Lacks x := by
  intro e he
  rcases List.mem_append.1 he with he | he
  · exact h e he
  · rw [List.mem_singleton.1 he]
    exact hentry

section

variable (hx : isOrdinary x = false) (hreserved : x ≠ reserved)
include hx hreserved

lemma not_mem_label (y : Vaulted × Nat) : x ∉ label y := by
  intro hmem
  have hlabel := isLabelChar_of_mem_label hmem
  simp only [isLabelChar, Bool.or_eq_true, beq_iff_eq] at hlabel
  rcases hlabel with ((((halpha | rfl) | rfl) | rfl) | rfl) | rfl
  · rw [isOrdinary_of_isWord (by rw [isWord, halpha, Bool.true_or])] at hx
    cases hx
  · cases hx
  · cases hx
  · cases hx
  · cases hx
  · exact hreserved rfl

lemma not_mem_withoutScripts (h : x ∉ text) :
    x ∉ (withoutScripts text).1 ∧ (withoutScripts text).2.Lacks x := by
  rw [withoutScripts_eq]
  refine not_mem_replaceWith (I := fun state : List ScriptBlock × Vault => state.2.Lacks x)
    (ne_of_mem_scan advances_scriptPattern h) (fun lexeme source hmem state hstate => ?_)
    fun entry hentry => (List.not_mem_nil hentry).elim
  obtain ⟨rest, hsuffix, hread⟩ := mem_scan advances_scriptPattern hmem
  obtain ⟨mark, inner, -, hsource, he⟩ := scriptPattern_eq_append hread
  have hlacks : x ∉ source := fun hmem => h <| hsuffix.subset <| by
    rw [he]
    simp [hsource hmem]
  exact ⟨not_mem_label hx hreserved (.fragment _, state.2.size),
    hstate.add (not_mem_scriptHtml hx _ hlacks)⟩

lemma not_mem_extract {v : Vault} (hv : v.Lacks x) (h : x ∉ s) :
    x ∉ (v.extract s).1 ∧ (v.extract s).2.Lacks x := by
  rw [extract_eq]
  refine not_mem_replaceWith (I := Vault.Lacks x) (ne_of_mem_scan advances_fencePattern h)
    (fun lexeme found hmem v hv => ?_) hv
  obtain ⟨tag, body⟩ := found
  obtain ⟨rfl, hinside, htag⟩ := fenceText_of_hit hmem
  have hlexeme : x ∉ fenceText tag body := fun hmem => h (hinside.subset hmem)
  have hbody : x ∉ body := fun hmem => hlexeme <| by simp [fenceText, hmem]
  unfold stashFence
  split_ifs
  · exact ⟨hlexeme, hv⟩
  · exact ⟨not_mem_label hx hreserved (.fence _, v.size),
      hv.add (not_mem_fenceHtml hx htag fun hmem => hbody (code_subset tag body hmem))⟩

lemma not_mem_vaulted (h : x ∉ text) : x ∉ (vaulted text).1 ∧ (vaulted text).2.Lacks x := by
  obtain ⟨htext, hvault⟩ := not_mem_withoutScripts hx hreserved h
  exact not_mem_extract hx hreserved hvault htext

end

/-! ### Blocks -/

lemma Cuts.subset (h : Cuts s ts) : ∀ t ∈ ts, t ⊆ s := by
  induction h with
  | nil => simp
  | keep c _ ih =>
    obtain ⟨ht, hts⟩ := List.forall_mem_cons.1 ih
    exact List.forall_mem_cons.2 ⟨List.cons_subset_cons c ht,
      fun u hu => List.Subset.trans (hts u hu) (List.subset_cons_self _ _)⟩
  | drop _ _ ih => exact fun u hu => List.Subset.trans (ih u hu) (List.subset_cons_self _ _)
  | cut _ _ ih =>
    exact List.forall_mem_cons.2 ⟨List.nil_subset _,
      fun u hu => List.Subset.trans (ih u hu) (List.subset_cons_self _ _)⟩

lemma normalize_subset (s : List Char) : normalize s ⊆ s := by
  have hunix : unixLines s ⊆ s := (Cuts.unixLines s).subset _ (List.mem_singleton_self _)
  have hsqueezed : squeeze 0 (unixLines s) ⊆ s := List.Subset.trans
    ((Cuts.squeeze 0 (unixLines s)).subset _ (List.mem_singleton_self _)) hunix
  unfold normalize
  dsimp only
  cases hbehind : (behindBlankLines (squeeze 0 (unixLines s))).head? with
  | none => exact hsqueezed
  | some t =>
    obtain ⟨blanks, he, -⟩ := eq_append_of_mem_behindBlankLines (List.mem_of_mem_head? hbehind)
    rw [he] at hsqueezed
    exact fun c hc => hsqueezed (List.mem_append_right _ hc)

lemma heading?_subset {level : Nat} (h : heading? s = some (level, t)) : t ⊆ s := by
  unfold heading? at h
  dsimp only at h
  split at h
  · next c rest hdrop =>
    split_ifs at h
    cases h
    intro d hd
    have hrest : d ∈ c :: rest :=
      List.mem_cons_of_mem c ((List.dropWhile_suffix _).subset (trim_subset _ hd))
    rw [← hdrop] at hrest
    exact (List.dropWhile_suffix _).subset hrest
  · cases h

lemma bulletItem?_subset (h : bulletItem? s = some t) : t ⊆ s := by
  unfold bulletItem? at h
  split at h
  · split_ifs at h
    cases h
    exact fun d hd => List.mem_cons_of_mem _ (List.mem_cons_of_mem _
      ((List.dropWhile_suffix _).subset hd))
  · cases h

lemma numberedItem?_subset (h : numberedItem? s = some t) : t ⊆ s := by
  unfold numberedItem? at h
  split at h
  · next c rest hdrop =>
    split_ifs at h
    cases h
    intro d hd
    refine (List.dropWhile_suffix Char.isDigit).subset ?_
    rw [hdrop]
    exact List.mem_cons_of_mem _ (List.mem_cons_of_mem _ ((List.dropWhile_suffix _).subset hd))
  · cases h

lemma unquote_subset (s : List Char) : unquote s ⊆ s := by
  unfold unquote
  split
  · split_ifs
    · exact fun d hd => List.mem_cons_of_mem _ (List.mem_cons_of_mem _ hd)
    · exact List.subset_cons_self _ _
  · exact List.nil_subset _
  · exact List.Subset.refl _

lemma not_mem_join {separator : List Char} (hseparator : x ∉ separator) (h : ∀ t ∈ ts, x ∉ t) :
    x ∉ join separator ts := by
  intro hmem
  rcases mem_of_mem_intercalate hmem with hmem | ⟨t, ht, hmem⟩
  · exact hseparator hmem
  · exact h t ht hmem

lemma cells_subset {row cell : List Char} (h : cell ∈ Table.cells row) : cell ⊆ row := by
  obtain ⟨piece, hpiece, rfl⟩ := List.mem_map.1 h
  exact List.Subset.trans (trim_subset piece)
    (subset_of_mem_splitOn (List.mem_of_mem_drop (List.dropLast_subset _ hpiece)))

section

variable (hx : isOrdinary x = false)
include hx

lemma not_mem_listItems {item? : List Char → Option (List Char)}
    (hitem : ∀ {s t}, item? s = some t → t ⊆ s) (h : x ∉ s) : x ∉ listItems item? s := by
  intro hmem
  obtain ⟨line, hline, hmem⟩ := List.mem_flatMap.1 hmem
  have hlacks : x ∉ line := fun hmem =>
    h (subset_of_mem_splitOn (List.mem_filter.1 hline).1 hmem)
  have hcontent : x ∉ (item? line).getD line := by
    cases hl : item? line with
    | none => exact hlacks
    | some t => exact fun hmem => hlacks (hitem hl hmem)
  exact List.not_mem_append (List.not_mem_append (not_mem_of_ordinary hx (by decide)) hcontent)
    (not_mem_of_ordinary hx (by decide)) hmem

lemma not_mem_renderSegment (h : x ∉ s) : x ∉ renderSegment s := by
  have hfixed : ∀ {l : List Char}, l.all isOrdinary = true → x ∉ l := not_mem_of_ordinary hx
  unfold renderSegment
  split
  · next level content hs =>
    have htag : x ∉ ['h'] ++ Nat.toDigits 10 level :=
      List.not_mem_append (hfixed (by decide)) (not_mem_toDigits hx level)
    have hcontent : x ∉ content := fun hmem => h (heading?_subset hs hmem)
    rw [List.singleton_append] at htag
    generalize 'h' :: Nat.toDigits 10 level = tag at htag
    show x ∉ ['<'] ++ tag ++ (['>'] ++ content) ++ (['<', '/'] ++ tag) ++ ['>']
    simp only [List.mem_append, not_or]
    exact ⟨⟨⟨⟨hfixed (by decide), htag⟩, hfixed (by decide), hcontent⟩, hfixed (by decide), htag⟩,
      hfixed (by decide)⟩
  · split_ifs
    · exact List.not_mem_append (List.not_mem_append (hfixed (by decide))
        (not_mem_listItems hx bulletItem?_subset h)) (hfixed (by decide))
    · exact List.not_mem_append (List.not_mem_append (hfixed (by decide))
        (not_mem_listItems hx numberedItem?_subset h)) (hfixed (by decide))
    · have hlines : x ∉ join "<br>".toList ((pieces s).map unquote) := by
        refine not_mem_join (hfixed (by decide)) fun t ht hmem => ?_
        obtain ⟨line, hline, rfl⟩ := List.mem_map.1 ht
        exact h (subset_of_mem_splitOn hline (unquote_subset line hmem))
      exact List.not_mem_append (List.not_mem_append (hfixed (by decide)) hlines)
        (hfixed (by decide))
    · exact hfixed (by decide)
    · exact h
    · exact List.not_mem_append (List.not_mem_append (hfixed (by decide)) h) (hfixed (by decide))

lemma not_mem_rowHtml (t : Table) {tag : String} (htag : x ∉ tag.toList) {row : List (List Char)}
    (h : ∀ cell ∈ row, x ∉ cell) : x ∉ t.rowHtml tag row := by
  have hfixed : ∀ {l : List Char}, l.all isOrdinary = true → x ∉ l := not_mem_of_ordinary hx
  intro hmem
  obtain ⟨⟨cell, column⟩, hcell, hmem⟩ := List.mem_flatMap.1 hmem
  have hclass : x ∉ (t.alignment column).className.toList := by
    cases t.alignment column <;> exact hfixed (by decide)
  revert hmem
  show ¬ _
  simp only [String.toList_append, List.mem_append, not_or]
  exact ⟨⟨⟨⟨⟨⟨hfixed (by decide), htag⟩, hfixed (by decide)⟩, hclass⟩, hfixed (by decide)⟩,
    h cell (List.fst_mem_of_mem_zipIdx hcell)⟩, ⟨hfixed (by decide), htag⟩, hfixed (by decide)⟩

lemma not_mem_renderTable (h : x ∉ s) : x ∉ renderTable s := by
  have hfixed : ∀ {l : List Char}, l.all isOrdinary = true → x ∉ l := not_mem_of_ordinary hx
  have hlines : ∀ line ∈ pieces (trim s), x ∉ line := fun line hline hmem =>
    h (trim_subset s (subset_of_mem_splitOn hline hmem))
  have hcells : ∀ line ∈ pieces (trim s), ∀ cell ∈ Table.cells line, x ∉ cell :=
    fun line hline cell hcell hmem => hlines line hline (cells_subset hcell hmem)
  unfold renderTable Table.parse?
  split
  · next table htable =>
    split at htable
    · next header delimiter rows hrows =>
      rw [hrows] at hcells
      split_ifs at htable
      cases htable
      have hbody : ∀ row ∈ rows.map Table.cells, ∀ cell ∈ row, x ∉ cell := by
        intro row hrow
        obtain ⟨line, hline, rfl⟩ := List.mem_map.1 hrow
        exact hcells line (List.mem_cons_of_mem _ (List.mem_cons_of_mem _ hline))
      unfold Table.html
      refine List.not_mem_append (List.not_mem_append (List.not_mem_append (List.not_mem_append
        (hfixed (by decide)) ?_) (hfixed (by decide))) ?_) (hfixed (by decide))
      · exact not_mem_rowHtml hx _ (hfixed (by decide)) (hcells header List.mem_cons_self)
      · intro hmem
        obtain ⟨row, hrow, hmem⟩ := List.mem_flatMap.1 hmem
        exact List.not_mem_append (List.not_mem_append (hfixed (by decide))
          (not_mem_rowHtml hx _ (hfixed (by decide)) (hbody row hrow))) (hfixed (by decide)) hmem
    · cases htable
  · exact h

lemma not_mem_renderBlock (h : x ∉ s) : x ∉ renderBlock s := by
  have htrim : x ∉ trim s := fun hmem => h (trim_subset s hmem)
  unfold renderBlock
  dsimp only
  split_ifs
  · exact List.not_mem_nil
  · exact not_mem_renderTable hx htrim
  · refine not_mem_join (not_mem_of_ordinary hx (by decide)) fun t ht => ?_
    obtain ⟨line, hline, rfl⟩ := List.mem_map.1 ht
    exact not_mem_renderSegment hx fun hmem => htrim (subset_of_mem_splitOn hline hmem)
  · exact not_mem_renderSegment hx htrim

lemma not_mem_renderBlocks (h : x ∉ s) : x ∉ renderBlocks s := by
  refine not_mem_join (not_mem_of_ordinary hx (by decide)) fun t ht => ?_
  obtain ⟨block, hblock, rfl⟩ := List.mem_map.1 ht
  exact not_mem_renderBlock hx fun hmem =>
    h (normalize_subset s ((Cuts.splitBlocksFrom false _).subset block hblock hmem))

/-! ### Marks -/

omit hx in
lemma not_mem_replaceHits {α : Type} {p : Pattern α} {f : α → List Char} (hp : p.Advances)
    (hhit : ∀ s a rest, p s = some (a, rest) → x ∉ s → x ∉ f a) (h : x ∉ s) :
    x ∉ replaceHits p f s := by
  unfold replaceHits
  induction s using hp.induct with
  | nil => simp
  | plain c s hnone ih =>
    rw [scan_plain hnone, List.flatMap_cons]
    rw [List.mem_cons, not_or] at h
    exact List.not_mem_append (mt List.mem_singleton.1 h.1) (ih h.2)
  | hit lexeme a rest hlexeme hread ih =>
    rw [scan_hit hlexeme hread, List.flatMap_cons]
    exact List.not_mem_append (hhit _ a rest hread h)
      (ih fun hmem => h (List.mem_append_right lexeme hmem))

omit hx in
lemma not_mem_renderEnclosed {mark : List Char} (hne : mark ≠ []) {tag : String}
    (hopen : x ∉ ("<" ++ tag ++ ">").toList) (hclose : x ∉ ("</" ++ tag ++ ">").toList)
    (h : x ∉ s) : x ∉ renderEnclosed mark tag s := by
  refine not_mem_replaceHits (advances_enclosed hne) (fun s inside rest hread hs => ?_) h
  have hinside : x ∉ inside := fun hmem => hs <| by
    rw [enclosed_eq_append hread]
    simp [hmem]
  exact List.not_mem_append (List.not_mem_append hopen hinside) hclose

omit hx in
lemma not_mem_renderLinks (hopen : x ∉ "<a href=\"".toList) (hbehind : x ∉ "\">".toList)
    (hclose : x ∉ "</a>".toList) (h : x ∉ s) : x ∉ renderLinks s := by
  refine not_mem_replaceHits advances_link (fun s found rest hread hs => ?_) h
  obtain ⟨name, target⟩ := found
  have hboth : x ∉ name ∧ x ∉ target := by
    constructor <;>
    · intro hmem
      refine hs ?_
      rw [link_eq_append hread]
      simp [hmem]
  exact List.not_mem_append (List.not_mem_append (List.not_mem_append (List.not_mem_append
    hopen hboth.2) hbehind) hboth.1) hclose

lemma not_mem_renderInline (h : x ∉ s) : x ∉ renderInline s := by
  have hfixed : ∀ {l : List Char}, l.all isOrdinary = true → x ∉ l := not_mem_of_ordinary hx
  have henclosed : ∀ {mark : List Char} {tag : String} {s : List Char}, mark ≠ [] →
      ("<" ++ tag ++ ">").toList.all isOrdinary = true →
      ("</" ++ tag ++ ">").toList.all isOrdinary = true → x ∉ s → x ∉ renderEnclosed mark tag s :=
    fun hne hopen hclose => not_mem_renderEnclosed hne (hfixed hopen) (hfixed hclose)
  exact not_mem_renderLinks (hfixed (by decide)) (hfixed (by decide)) (hfixed (by decide))
    (henclosed (by decide) (by decide) (by decide)
      (henclosed (by decide) (by decide) (by decide)
        (henclosed (by decide) (by decide) (by decide) h)))

end

/-! ### The page -/

lemma not_mem_replaceFirst {pattern replacement : List Char} (hr : x ∉ replacement) (h : x ∉ s) :
    x ∉ replaceFirst pattern replacement s := by
  unfold replaceFirst
  split
  · next before rest hcut =>
    rw [cut_eq_some hcut, List.mem_append, List.mem_append, not_or, not_or] at h
    exact List.not_mem_append (List.not_mem_append h.1.1 hr) h.2
  · exact h

lemma not_mem_restore {v : Vault} (hv : v.Lacks x) (h : x ∉ s) : x ∉ v.restore s := by
  have hfold : ∀ slots : List (Vaulted × Nat), (∀ y ∈ slots, x ∉ y.1.html) → ∀ s, x ∉ s →
      x ∉ slots.foldl (fun s y => replaceFirst (label y) y.1.html s) s := by
    intro slots
    induction slots with
    | nil => exact fun _ s h => h
    | cons y slots ih =>
      intro hslots s h
      obtain ⟨hy, hslots⟩ := List.forall_mem_cons.1 hslots
      exact ih hslots _ (not_mem_replaceFirst hy h)
  rw [restore_eq]
  exact hfold _ (fun y hy => hv y.1 (List.fst_mem_of_mem_zipIdx hy)) s h

/-- **A character out of the ordinary that stands in a page stands in its note**, unless it is the
reserved one. -/
theorem not_mem_page (hx : isOrdinary x = false) (hreserved : x ≠ reserved) (h : x ∉ text) :
    x ∉ (renderNote text).html := by
  obtain ⟨htext, hvault⟩ := not_mem_vaulted hx hreserved h
  rw [renderNote_html]
  exact not_mem_restore hvault (not_mem_renderInline hx (not_mem_renderBlocks hx htext))

end ScriptedNotes.Page
