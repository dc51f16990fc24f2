import Mathlib.Data.List.TakeWhile
import ScriptedNotes.Page.Render
import ScriptedNotes.Proofs.Page.Entities

/-!
The tags of a page. A page is looked at as whoever shows it does: tags with their attributes, the
texts between them, and entities resolved in both (`Markup.read?`). Escaped text makes no tag and
ends none, so a fence and the fragment of a script have the tags of their templates and show what
they were given, whatever that is (`escaped_text_contained`).
-/

namespace ScriptedNotes.Page

open Text

/-- An attribute of a tag; it may come without a value. -/
structure Attribute where
  name : List Char
  value : Option (List Char) := none
  deriving DecidableEq

inductive Tag where
  | opening (name : List Char) (attributes : List Attribute)
  | closing (name : List Char)
  deriving DecidableEq

/-- A text, and tags with the text behind each of them. -/
structure Markup where
  text : List Char
  tags : List (Tag × List Char)
  deriving DecidableEq

/-! ### Reading -/

/-- Whether a character may stand in the name of a tag or an attribute. -/
def isNameChar (c : Char) : Bool :=
  isWord c || c == '-'

/-- The attributes of a tag up to the end of it. A value stands in quotes, where all but the quote
belongs to it. -/
def attributes? : Nat → Pattern (List Attribute)
  | 0, _ => none
  | _ + 1, '>' :: s => some ([], s)
  | fuel + 1, ' ' :: s =>
    let name := s.takeWhile isNameChar
    match s.dropWhile isNameChar with
    | '=' :: '"' :: s => do
      let (value, s) ← cut ['"'] s
      let (attributes, s) ← attributes? fuel s
      return (⟨name, decoded value⟩ :: attributes, s)
    | s => do
      let (attributes, s) ← attributes? fuel s
      return (⟨name, none⟩ :: attributes, s)
  | _ + 1, _ => none

/-- A tag behind the bracket that opens it. -/
def tag? : Pattern Tag
  | '/' :: s => (after? ['>'] (s.dropWhile isNameChar)).map fun rest =>
    (.closing (s.takeWhile isNameChar), rest)
  | s => (attributes? s.length (s.dropWhile isNameChar)).map fun (attributes, rest) =>
    (.opening (s.takeWhile isNameChar) attributes, rest)

/-- The tags of a text and what stands between them; there are none if a tag is not in order. -/
def markup? : Nat → List Char → Option Markup
  | 0, _ => none
  | fuel + 1, s =>
    let text := decoded (s.takeWhile (· ≠ '<'))
    match s.dropWhile (· ≠ '<') with
    | [] => some ⟨text, []⟩
    | _ :: rest => do
      let (tag, rest) ← tag? rest
      let markup ← markup? fuel rest
      return ⟨text, (tag, markup.text) :: markup.tags⟩

/-- The markup that a page is written in. -/
def Markup.read? (page : List Char) : Option Markup :=
  markup? (page.length + 1) page

/-! ### Writing -/

def Attribute.write : Attribute → List Char
  | ⟨name, some value⟩ => ' ' :: name ++ '=' :: '"' :: escape value ++ ['"']
  | ⟨name, none⟩ => ' ' :: name

def Tag.write : Tag → List Char
  | .opening name attributes => '<' :: name ++ attributes.flatMap Attribute.write ++ ['>']
  | .closing name => '<' :: '/' :: name ++ ['>']

/-- Tags, and escaped text between them. -/
def Markup.write (m : Markup) : List Char :=
  escape m.text ++ m.tags.flatMap fun (tag, text) => tag.write ++ escape text

/-- The names in a tag are names. -/
def Tag.named : Tag → Bool
  | .opening name attributes =>
    name.all isNameChar && attributes.all fun a => a.name.all isNameChar
  | .closing name => name.all isNameChar

/-! ### Reading what was written -/

section

variable {c : Char} {name s rest : List Char}

lemma takeWhile_name (hname : name.all isNameChar = true) (hc : isNameChar c = false) :
    (name ++ c :: rest).takeWhile isNameChar = name := by
  rw [List.takeWhile_append_of_pos (List.all_eq_true.1 hname),
    List.takeWhile_cons_of_neg (by simp [hc]),
    List.append_nil]

lemma dropWhile_name (hname : name.all isNameChar = true) (hc : isNameChar c = false) :
    (name ++ c :: rest).dropWhile isNameChar = c :: rest := by
  rw [List.dropWhile_append_of_pos (List.all_eq_true.1 hname),
    List.dropWhile_cons_of_neg (by simp [hc])]

/-- Behind a name in a tag comes a blank or the end of the tag. -/
lemma attributes_head (attributes : List Attribute) (rest : List Char) :
    ∃ c t, attributes.flatMap Attribute.write ++ '>' :: rest = c :: t ∧ (c = ' ' ∨ c = '>') := by
  cases attributes with
  | nil => exact ⟨'>', rest, rfl, .inr rfl⟩
  | cons a attributes =>
    obtain ⟨name, value⟩ := a
    cases value with
    | none => exact ⟨_, _, rfl, .inl rfl⟩
    | some value => exact ⟨_, _, rfl, .inl rfl⟩

lemma cut_quote (value rest : List Char) :
    cut ['"'] (escape value ++ '"' :: rest) = some (escape value, rest) := by
  have hhere : cut ['"'] ('"' :: rest) = some ([], rest) := rfl
  rw [cut_skip (not_mem_escape_of_markup (by decide)), hhere]
  simp

lemma attributes?_write {attributes : List Attribute}
    (hnames : attributes.all fun a => a.name.all isNameChar) (rest : List Char) {fuel : Nat}
    (hfuel : attributes.length < fuel) :
    attributes? fuel (attributes.flatMap Attribute.write ++ '>' :: rest) =
      some (attributes, rest) := by
  induction attributes generalizing fuel with
  | nil =>
    obtain ⟨fuel, rfl⟩ : ∃ f, fuel = f + 1 := ⟨fuel - 1, by simp at hfuel; omega⟩
    rfl
  | cons a attributes ih =>
    obtain ⟨fuel, rfl⟩ : ∃ f, fuel = f + 1 := ⟨fuel - 1, by omega⟩
    rw [List.all_cons, Bool.and_eq_true] at hnames
    rw [List.length_cons] at hfuel
    have hrest := ih hnames.2 (Nat.lt_of_succ_lt_succ hfuel)
    obtain ⟨name, value⟩ := a
    cases value with
    | none =>
      obtain ⟨c, t, hhead, hc⟩ := attributes_head attributes rest
      have hend : isNameChar c = false ∧ c ≠ '=' := by
        rcases hc with rfl | rfl <;> decide
      rw [hhead] at hrest
      rw [List.flatMap_cons, List.append_assoc, hhead]
      show attributes? (fuel + 1) (' ' :: (name ++ c :: t)) = _
      simp only [attributes?, takeWhile_name hnames.1 hend.1, dropWhile_name hnames.1 hend.1]
      split
      · next h => exact absurd (List.cons.inj h).1 hend.2
      · rw [hrest]
        rfl
    | some value =>
      have hwrite : (⟨name, some value⟩ : Attribute).write ++
          (attributes.flatMap Attribute.write ++ '>' :: rest) = ' ' :: (name ++ '=' ::
            ('"' :: (escape value ++
              '"' :: (attributes.flatMap Attribute.write ++ '>' :: rest)))) := by
        simp [Attribute.write]
      rw [List.flatMap_cons, List.append_assoc, hwrite]
      simp only [attributes?, takeWhile_name hnames.1 (by decide : isNameChar '=' = false),
        dropWhile_name hnames.1 (by decide : isNameChar '=' = false)]
      rw [cut_quote]
      show (attributes? fuel (attributes.flatMap Attribute.write ++ '>' :: rest) >>= _) = _
      rw [hrest, decoded_escape]
      rfl

/-- There are no more parts than the characters that they are written with. -/
lemma length_le_length_flatMap {α : Type} {write : α → List Char} (h : ∀ a, write a ≠ [])
    (parts : List α) : parts.length ≤ (parts.flatMap write).length := by
  induction parts with
  | nil => exact Nat.zero_le _
  | cons a parts ih =>
    have hpos := List.length_pos_iff.2 (h a)
    rw [List.flatMap_cons, List.length_append, List.length_cons]
    omega

lemma Attribute.write_ne_nil : ∀ a : Attribute, a.write ≠ []
  | ⟨_, some _⟩ => List.cons_ne_nil _ _
  | ⟨_, none⟩ => List.cons_ne_nil _ _

/-- A tag that was written is read back, up to its bracket. -/
lemma tag?_write {tag : Tag} (h : tag.named = true) (rest : List Char) :
    ∃ s, tag.write ++ rest = '<' :: s ∧ tag? s = some (tag, rest) := by
  cases tag with
  | closing name =>
    refine ⟨'/' :: (name ++ '>' :: rest), by simp [Tag.write], ?_⟩
    simp only [tag?, takeWhile_name h (by decide : isNameChar '>' = false),
      dropWhile_name h (by decide : isNameChar '>' = false)]
    rfl
  | opening name attributes =>
    rw [Tag.named, Bool.and_eq_true] at h
    obtain ⟨c, t, hhead, hc⟩ := attributes_head attributes rest
    have hend : isNameChar c = false ∧ c ≠ '/' := by
      rcases hc with rfl | rfl <;> decide
    refine ⟨name ++ c :: t, by simp [Tag.write, ← hhead], ?_⟩
    have hopening : ∀ u, name ++ c :: t ≠ '/' :: u := by
      intro u hu
      cases name with
      | nil => exact hend.2 (List.cons.inj hu).1
      | cons d name =>
        obtain ⟨rfl, -⟩ := List.cons.inj hu
        cases List.all_eq_true.1 h.1 '/' List.mem_cons_self
    have hfuel : attributes.length < (name ++ c :: t).length := by
      have hle := length_le_length_flatMap Attribute.write_ne_nil attributes
      rw [← hhead]
      simp only [List.length_append, List.length_cons]
      omega
    have hread := attributes?_write h.2 rest hfuel
    rw [hhead] at hread
    unfold tag?
    split
    · next u hu => exact absurd hu (hopening u)
    · rw [takeWhile_name h.1 hend.1, dropWhile_name h.1 hend.1, hread]
      rfl

lemma markup?_write {tags : List (Tag × List Char)} (h : ∀ p ∈ tags, p.1.named = true)
    (text : List Char) {fuel : Nat} (hfuel : tags.length < fuel) :
    markup? fuel (Markup.write ⟨text, tags⟩) = some ⟨text, tags⟩ := by
  have htext : ∀ (text : List Char), ∀ d ∈ escape text, decide (d ≠ '<') = true := by
    intro text d hd
    refine decide_eq_true fun he => ?_
    exact not_mem_escape_of_markup (by decide) (he ▸ hd)
  induction tags generalizing text fuel with
  | nil =>
    obtain ⟨fuel, rfl⟩ : ∃ f, fuel = f + 1 := ⟨fuel - 1, by simp at hfuel; omega⟩
    have hwrite : Markup.write ⟨text, []⟩ = escape text := by simp [Markup.write]
    rw [hwrite, markup?, List.takeWhile_eq_self_iff.2 (htext text),
      List.dropWhile_eq_nil_iff.2 (htext text), decoded_escape]
  | cons p tags ih =>
    obtain ⟨fuel, rfl⟩ : ∃ f, fuel = f + 1 := ⟨fuel - 1, by omega⟩
    obtain ⟨tag, behind⟩ := p
    obtain ⟨htag, htags⟩ := List.forall_mem_cons.1 h
    obtain ⟨s, hwrite, hread⟩ := tag?_write htag (Markup.write ⟨behind, tags⟩)
    have hpage : Markup.write ⟨text, (tag, behind) :: tags⟩ = escape text ++ '<' :: s := by
      rw [← hwrite]
      simp [Markup.write]
    rw [hpage, markup?, List.takeWhile_append_of_pos (htext text),
      List.takeWhile_cons_of_neg (by decide), List.append_nil, decoded_escape,
      List.dropWhile_append_of_pos (htext text), List.dropWhile_cons_of_neg (by decide)]
    show (tag? s >>= _) = _
    rw [hread]
    show (markup? fuel (Markup.write ⟨behind, tags⟩) >>= _) = _
    rw [ih htags behind (by simpa using hfuel)]
    rfl

/-- **Markup is read back as it was written**, whatever its texts and the values of its attributes
say. -/
theorem Markup.read?_write {m : Markup} (h : (m.tags.all fun p => p.1.named) = true) :
    Markup.read? m.write = some m := by
  refine markup?_write (List.all_eq_true.1 h) m.text ?_
  have hle : m.tags.length ≤ (m.tags.flatMap fun (tag, text) => tag.write ++ escape text).length :=
    length_le_length_flatMap (fun p => by cases hp : p.1 <;> simp [hp, Tag.write]) m.tags
  rw [Markup.write, List.length_append]
  omega

end

/-! ### The templates -/

/-- A tag whose attributes all have values. -/
def Tag.start (name : String) (attributes : List (String × List Char)) : Tag :=
  .opening name.toList (attributes.map fun (name, value) => ⟨name.toList, some value⟩)

def Tag.stop (name : String) : Tag :=
  .closing name.toList

/-- What a page shows of a fence. -/
def CodeFence.markup (fence : CodeFence) : Markup where
  text := []
  tags :=
    [(.start "pre" [], []),
      (.start "code" (match fence.language with
        | some language => [("class", "language-".toList ++ language)]
        | none => []), fence.code),
      (.stop "code", []), (.stop "pre", [])]

/-- What a page shows of a script that can be run. -/
def runnableMarkup (id source : List Char) : Markup where
  text := []
  tags :=
    [(.start "div" [("class", "automation-block".toList), ("id", id)], "\n".toList),
      (.start "div" [("class", "automation-header".toList)], []),
      (.start "span" [("class", "automation-icon".toList)], "auto_fix_high".toList),
      (.stop "span", []), (.start "span" [], "Automation Script".toList), (.stop "span", []),
      (.start "button" [("class", "automation-run".toList), ("data-automation", id)],
        "Run".toList),
      (.stop "button", []), (.stop "div", "\n".toList),
      (.start "pre" [], []), (.start "code" [("class", "language-automation".toList)], source),
      (.stop "code", []), (.stop "pre", "\n".toList),
      (.opening "div".toList
        [⟨"class".toList, some "automation-output".toList⟩, ⟨"hidden".toList, none⟩], []),
      (.start "div" [("class", "automation-status".toList)], []), (.stop "div", []),
      (.start "div" [("class", "automation-terminal".toList)], []), (.stop "div", []),
      (.stop "div", "\n".toList), (.stop "div", [])]

/-- What a page shows of a script that cannot be compiled. -/
def brokenMarkup (id source message : List Char) : Markup where
  text := []
  tags :=
    [(.start "div" [("class", "automation-block error".toList), ("id", id)], "\n".toList),
      (.start "div" [("class", "automation-header".toList)], []),
      (.start "span" [("class", "automation-icon".toList)], "error".toList), (.stop "span", []),
      (.start "span" [], "Invalid Automation Script".toList), (.stop "span", []),
      (.stop "div", "\n".toList),
      (.start "pre" [], []), (.start "code" [("class", "language-automation".toList)], source),
      (.stop "code", []), (.stop "pre", "\n".toList),
      (.start "div" [("class", "automation-error".toList)], message), (.stop "div", "\n".toList),
      (.stop "div", [])]

def ScriptBlock.markup (b : ScriptBlock) : Markup :=
  match b.compiled with
  | .ok _ => runnableMarkup b.id.toList b.source
  | .error e => brokenMarkup b.id.toList b.source e.message.toList

lemma write_fenceMarkup (fence : CodeFence) : fence.markup.write = fence.html := by
  obtain ⟨code, language⟩ := fence
  cases language with
  | none =>
    simp [CodeFence.html, CodeFence.markup, Markup.write, Tag.write, Tag.start, Tag.stop, escape]
  | some language =>
    simp [CodeFence.html, CodeFence.markup, Markup.write, Tag.write, Tag.start, Tag.stop, escape,
      Attribute.write, escapeChar]

lemma isPlain_of_isDigit {c : Char} (h : c.isDigit = true) : isPlain c = true := by
  refine decide_eq_true fun hmarkup => ?_
  simp only [List.mem_cons, List.not_mem_nil, or_false] at hmarkup
  rcases hmarkup with rfl | rfl | rfl | rfl | rfl <;> cases h

/-- The id of a script needs no entity. -/
lemma escape_id (b : ScriptBlock) : escape b.id.toList = b.id.toList := by
  have hdigits : b.number.repr.toList.all isPlain = true := by
    rw [Nat.toList_repr]
    refine List.all_eq_true.2 fun c hc => isPlain_of_isDigit ?_
    exact Nat.isDigit_of_mem_toDigits (by decide) (by decide) hc
  refine escape_eq_self ?_
  rw [ScriptBlock.id, String.toList_append, List.all_append, Bool.and_eq_true]
  exact ⟨by decide, hdigits⟩

set_option maxRecDepth 2000 in
lemma write_scriptMarkup (b : ScriptBlock) : b.markup.write = scriptHtml b := by
  have hid := escape_id b
  unfold scriptHtml ScriptBlock.markup
  generalize b.id.toList = id at hid
  cases b.compiled with
  | ok _ =>
    simp (disch := decide) only [runnableMarkup, Markup.write, Tag.write, Tag.start, Tag.stop,
      Attribute.write, List.map_cons, List.map_nil, List.flatMap_cons, List.flatMap_nil,
      List.append_assoc, List.cons_append, List.nil_append, hid, escape_eq_self]
    simp only [String.reduceToList, List.cons_append, List.nil_append]
  | error e =>
    simp (disch := decide) only [brokenMarkup, Markup.write, Tag.write, Tag.start, Tag.stop,
      Attribute.write, List.map_cons, List.map_nil, List.flatMap_cons, List.flatMap_nil,
      List.append_assoc, List.cons_append, List.nil_append, hid, escape_eq_self]
    simp only [String.reduceToList, List.cons_append, List.nil_append]

/-- A fence is read as what its template shows, whatever its code and its language are. -/
lemma read?_fence (fence : CodeFence) : Markup.read? fence.html = some fence.markup := by
  rw [← write_fenceMarkup]
  refine Markup.read?_write ?_
  obtain ⟨code, language⟩ := fence
  cases language <;> rfl

/-- The fragment of a script is read as what its template shows, whatever its source is and
whatever the message says. -/
lemma read?_script (b : ScriptBlock) : Markup.read? (scriptHtml b) = some b.markup := by
  rw [← write_scriptMarkup]
  refine Markup.read?_write ?_
  unfold ScriptBlock.markup
  cases b.compiled <;> rfl

/-- **Escaped text neither breaks out nor loses information.** An escaped text has no bracket and
no quote, each ampersand in it begins an entity, and it is decoded to the text that was escaped, so
no two texts are escaped alike. Therefore a fence is read as the tags of its template around its
code, for every code and language; and the fragment of a script as the tags of its template around
the source and the message, for every source and error. -/
theorem escaped_text_contained :
    (∀ s, (∀ c ∈ ['<', '>', '"', '\''], c ∉ escape s) ∧
      (∀ before after, escape s = before ++ '&' :: after →
        ∃ e ∈ entities, e.1 <+: '&' :: after) ∧
      decoded (escape s) = s) ∧
    Function.Injective escape ∧
    (∀ fence : CodeFence, Markup.read? fence.html = some fence.markup) ∧
    ∀ b : ScriptBlock, Markup.read? (scriptHtml b) = some b.markup := by
  refine ⟨fun s => ⟨fun c hc => not_mem_escape_of_markup hc, fun before after h => ?_,
    decoded_escape s⟩, escape_injective, read?_fence, read?_script⟩
  exact entity_of_ampersand h

/-- Code that would close its element stays text. -/
example : (Markup.read? (CodeFence.html ⟨"</code><b>".toList, none⟩)).map (·.tags.map (·.1)) =
    some [.start "pre" [], .start "code" [], .stop "code", .stop "pre"] := by
  decide +kernel

end ScriptedNotes.Page
