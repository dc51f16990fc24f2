import ScriptedNotes.Proofs.Script.Reading

/-!
How far readers look ahead. What a reader of the grammar has read stays as it is with more fuel, and
with more tokens behind the others unless it read to their end and the first of those behind goes on
with it (`grammarExtends`). Nor does a reader look at the token before the first (`Fresh`).
-/

namespace ScriptedNotes.Script

open Reader

/-! ### Places -/

/-- The place with more tokens behind those that are ahead. -/
def Cursor.before (c : Cursor) (tail : List Located) : Cursor :=
  ⟨c.previous, c.rest ++ tail⟩

@[simp] lemma Cursor.before_nil (c : Cursor) : c.before [] = c := by
  rw [Cursor.before, List.append_nil]

@[simp] lemma Cursor.head?_cons (p : Option Nat) (t : Located) (rest : List Located) :
    (Cursor.mk p (t :: rest)).head? = some t.token := rfl

@[simp] lemma Cursor.second?_cons (p : Option Nat) (t u : Located) (rest : List Located) :
    (Cursor.mk p (t :: u :: rest)).second? = some u.token := rfl

@[simp] lemma Cursor.line_cons (p : Option Nat) (t : Located) (rest : List Located) :
    (Cursor.mk p (t :: rest)).line = t.line := rfl

@[simp] lemma Cursor.onSameLine_cons (p : Option Nat) (t : Located) (rest : List Located) :
    (Cursor.mk p (t :: rest)).onSameLine = p.any (t.line == ·) := by
  cases p <;> rfl

/-! ### Steps of readers -/

/-- What is read by two readers in turn is read by each. -/
lemma exists_of_bind {α β : Type} {x : Reader α} {f : α → Reader β} {c d : Cursor} {b : β}
    (h : (x >>= f) c = .ok (b, d)) : ∃ a c', x c = .ok (a, c') ∧ f a c' = .ok (b, d) := by
  change Except.bind (x c) (fun (a, c) => f a c) = _ at h
  match hx : x c with
  | .ok (a, c') =>
    rw [hx] at h
    exact ⟨a, c', rfl, h⟩
  | .error e =>
    rw [hx] at h
    cases h

lemma run'_eq_of_apply {α : Type} {x : Reader α} {c d : Cursor} {a : α} (h : x c = .ok (a, d)) :
    x.run' c = .ok a := by
  show (·.1) <$> x c = _
  rw [h]
  rfl

lemma exists_of_run' {α : Type} {x : Reader α} {c : Cursor} {a : α} (h : x.run' c = .ok a) :
    ∃ d, x c = .ok (a, d) := by
  change (·.1) <$> x c = _ at h
  match hx : x c with
  | .ok (b, d) =>
    rw [hx] at h
    obtain ⟨⟩ := h
    exact ⟨d, rfl⟩
  | .error e =>
    rw [hx] at h
    cases h

lemma eat_bind_apply {α : Type} (t : Token) (f : Bool → Reader α) (c : Cursor) :
    (eat t >>= f) c = if c.head? = some t then f true c.advance else f false c := by
  show ((if c.head? = some t then _ else _ : Reader Bool) >>= f) c = _
  split <;> rfl

section

variable {α : Type} {k : Token} {t : Located} {rest : List Located} {p : Option Nat}

lemma eat_bind_of_eq (h : t.token = k) {f : Bool → Reader α} :
    (eat k >>= f) ⟨p, t :: rest⟩ = f true ⟨some t.line, rest⟩ := by
  rw [eat_bind_apply, Cursor.head?_cons, if_pos (congrArg some h)]
  rfl

lemma eat_bind_of_ne {c : Cursor} (h : c.head? ≠ some k) {f : Bool → Reader α} :
    (eat k >>= f) c = f false c := by
  rw [eat_bind_apply, if_neg h]

lemma expect_apply (h : t.token = k) :
    expect k ⟨p, t :: rest⟩ = .ok ((), ⟨some t.line, rest⟩) :=
  (eat_bind_of_eq h).trans rfl

end

lemma exists_of_expect {t : Token} {c d : Cursor} (h : expect t c = .ok ((), d)) :
    ∃ u, u.token = t ∧ c.rest = u :: d.rest := by
  have h : (eat t >>= fun found => if found then pure () else unexpected (.token t)) c = _ := h
  rw [eat_bind_apply] at h
  split at h
  · next hhead =>
    match c, hhead, h with
    | ⟨_, u :: rest⟩, hhead, h =>
      obtain ⟨⟩ := h
      exact ⟨u, Option.some.inj hhead, rfl⟩
  · cases h

section

variable {literal : LiteralReader} {fuel : Nat} {word : String} {c : Cursor}

lemma command_of_ends (h : c.advance.endsCommand = true) :
    command literal (fuel + 1) word c = .ok (.expr (.callNamed word []), c.advance) := by
  rw [command_apply, if_pos h]

lemma command_of_takes (hends : c.advance.endsCommand = false)
    (htakes : c.advance.takesArguments = true) :
    command literal (fuel + 1) word c = (commandArguments literal fuel >>= fun args =>
      pure (.expr (.callNamed word args))) c.advance := by
  rw [command_apply, if_neg (Bool.eq_false_iff.1 hends), if_pos htakes]

lemma command_of_other (hends : c.advance.endsCommand = false)
    (htakes : c.advance.takesArguments = false) :
    command literal (fuel + 1) word c = expressionStatement literal fuel c := by
  rw [command_apply, if_neg (Bool.eq_false_iff.1 hends), if_neg (Bool.eq_false_iff.1 htakes)]

end

/-! ### Where an expression ends -/

/-- Tokens before whose first one an expression ends. -/
def EndExpression (tail : List Located) : Prop :=
  ∀ t ∈ tail.head?, t.token.endsExpression = true

lemma EndExpression.of_eq_nil {tail : List Located} (h : tail = []) : EndExpression tail := by
  rintro t ht
  rw [h] at ht
  cases ht

lemma EndExpression.of_token {t : Located} {rest : List Located} {u : Token} (ht : t.token = u)
    (hu : u.endsExpression = true) : EndExpression (t :: rest) := by
  rintro _ ⟨⟩
  rwa [ht]

lemma Token.binaryOp?_of_endsExpression {t : Token} (h : t.endsExpression = true) :
    binaryOp? t = none := by
  simp only [endsExpression, Bool.and_eq_true, Option.isNone_iff_eq_none] at h
  exact h.2

lemma EndExpression.operatorAt? {tail : List Located} (h : EndExpression tail) (p : Option Nat)
    (level : Nat) : (Cursor.mk p tail).operatorAt? level = none := by
  cases tail with
  | nil => rfl
  | cons t rest =>
    show (binaryOp? t.token).filter _ = none
    rw [Token.binaryOp?_of_endsExpression (h t rfl)]
    rfl

lemma EndExpression.ne {tail : List Located} (h : EndExpression tail) {t : Token}
    (ht : t.endsExpression = false) : ∀ u ∈ tail.head?, u.token ≠ t := by
  rintro u hu rfl
  exact Bool.noConfusion (ht.symm.trans (h u hu))

section

variable {literal : LiteralReader} {fuel level : Nat} {e : Expr} {p : Option Nat}
  {tail : List Located} (h : EndExpression tail)
include h

lemma operatorChain_stop :
    operatorChain literal (fuel + 1) level e ⟨p, tail⟩ = .ok (e, ⟨p, tail⟩) := by
  rw [operatorChain, get_bind_apply, h.operatorAt?]
  rfl

lemma suffixes_stop : suffixes literal (fuel + 1) e ⟨p, tail⟩ = .ok (e, ⟨p, tail⟩) := by
  rw [suffixes, get_bind_apply]
  cases tail with
  | nil => rfl
  | cons t rest =>
    have ht := h t rfl
    rw [Cursor.head?_cons]
    generalize t.token = next at ht
    cases next with
    | symbol y => cases y <;> first | rfl | cases ht
    | _ => rfl

end

lemma arrowFollows_append {wantsName : Bool} {rest : List Located} (tail : List Located)
    (h : arrowFollows wantsName rest = true) : arrowFollows wantsName (rest ++ tail) = true := by
  induction rest generalizing wantsName with
  | nil => cases h
  | cons t rest ih =>
    rw [arrowFollows] at h
    rw [List.cons_append, arrowFollows]
    split at h
    · cases rest with
      | nil => cases h
      | cons u rest => exact h
    · rw [Bool.and_eq_true] at h ⊢
      exact ⟨h.1, ih h.2⟩
    · rw [Bool.and_eq_true] at h ⊢
      exact ⟨h.1, ih h.2⟩
    · cases h

/-- Whether an arrow follows is settled by the parenthesis that closes. -/
lemma arrowFollows_append_eq {wantsName : Bool} {rest tail ahead : List Located} {u : Located}
    (hu : u.token = .symbol .closeParen) (hsuffix : u :: ahead <:+ rest)
    (hsafe : ahead ≠ [] ∨ EndExpression tail) :
    arrowFollows wantsName (rest ++ tail) = arrowFollows wantsName rest := by
  induction rest generalizing wantsName with
  | nil => cases List.suffix_nil.1 hsuffix
  | cons t rest ih =>
    rw [List.cons_append, arrowFollows, arrowFollows]
    rcases List.suffix_cons_iff.1 hsuffix with heq | hsuffix
    · obtain ⟨rfl, rfl⟩ := List.cons.inj heq
      rw [hu]
      cases ahead with
      | nil =>
        have hend : EndExpression tail := hsafe.resolve_left (not_not_intro rfl)
        refine decide_eq_false fun h => ?_
        obtain ⟨v, hv, harrow⟩ := Option.map_eq_some_iff.1 h
        exact hend.ne rfl v hv harrow
      | cons v ahead => rfl
    · rw [ih hsuffix, ih hsuffix]
      cases rest with
      | nil => cases List.suffix_nil.1 hsuffix
      | cons v rest => rfl

/-! ### Reading with more behind -/

section

variable {α : Type} (tail : List Located) (n : Nat) (safe : Prop) (x y : Reader α)

/-- What `x` reads from a cursor, and it takes `n` tokens at least, `y` reads as well when more
tokens stand behind the others: always if some of the others are left over, and else if `safe`
holds. -/
def ExtendsAt (c : Cursor) : Prop :=
  ∀ a d, x c = .ok (a, d) → d.rest <:+ c.rest ∧ d.rest.length + n ≤ c.rest.length ∧
    (d.rest ≠ [] ∨ safe → y (c.before tail) = .ok (a, d.before tail))

/-- The same from every cursor. -/
def Extends : Prop :=
  ∀ c, ExtendsAt tail n safe x y c

end

/-! ### Rules at a place -/

namespace ExtendsAt

variable {α β : Type} {tail : List Located} {m n : Nat} {s r : Prop} {x y : Reader α}
  {f g : α → Reader β} {c : Cursor}

lemma of_fails (h : ∀ a d, x c ≠ .ok (a, d)) : ExtendsAt tail n s x y c :=
  fun a d hx => (h a d hx).elim

/-- A reader that has to take a token reads nothing at the end. -/
lemma of_end {y' : Reader α} (h : ExtendsAt tail 1 r x y' c) (hc : c.rest = []) :
    ExtendsAt tail n s x y c := by
  refine of_fails fun a d hx => ?_
  have := (h a d hx).2.1
  rw [hc, List.length_nil] at this
  omega

lemma pure (a : α) : ExtendsAt tail 0 s (pure a) (pure a) c := by
  rintro _ _ ⟨⟩
  exact ⟨List.suffix_rfl, Nat.le_refl _, fun _ => rfl⟩

/-- A reader that takes nothing at the end. -/
lemma pure_end {a : α} {y : Reader α} {p : Option Nat}
    (h : s → y ⟨p, tail⟩ = .ok (a, ⟨p, tail⟩)) :
    ExtendsAt tail 0 s (Pure.pure a) y ⟨p, []⟩ := by
  rintro _ _ ⟨⟩
  exact ⟨List.suffix_rfl, Nat.le_refl _, fun hd => h (hd.resolve_left (not_not_intro rfl))⟩

/-- How many tokens are taken may be forgotten. -/
lemma lax (h : ExtendsAt tail n s x y c) : ExtendsAt tail 0 s x y c := by
  intro a d hx
  obtain ⟨hsuffix, hlength, hy⟩ := h a d hx
  exact ⟨hsuffix, by omega, hy⟩

/-- With more behind, another reader may take the place of one that does the same on what `x` can
read. -/
lemma congr_right {y' : Reader α} (h : ExtendsAt tail n s x y c)
    (hy : ∀ a d, x c = .ok (a, d) → d.rest ≠ [] ∨ s → y' (c.before tail) = y (c.before tail)) :
    ExtendsAt tail n s x y' c := by
  intro a d hx
  obtain ⟨hsuffix, hlength, h⟩ := h a d hx
  exact ⟨hsuffix, hlength, fun hd => (hy a d hx hd).trans (h hd)⟩

/-- A choice that is made alike in both readers. -/
lemma branch {q : Prop} {i j : Decidable q} {x' y' : Reader α} (ht : ExtendsAt tail n s x y c)
    (hf : ExtendsAt tail n s x' y' c) :
    ExtendsAt tail n s (@ite _ q i x x') (@ite _ q j y y') c := by
  by_cases hq : q
  · rwa [if_pos hq, if_pos hq]
  · rwa [if_neg hq, if_neg hq]

/-- The readers may be followed along the branches that they take. -/
lemma of_apply {x' y' : Reader α} (h : ExtendsAt tail n s x' y' c) (hx : x c = x' c)
    (hy : y (c.before tail) = y' (c.before tail)) : ExtendsAt tail n s x y c := by
  intro a d
  rw [hx, hy]
  exact h a d

/-- Behind the only token that is left nothing is safe but the end. -/
lemma of_last {y' : Reader α} {p : Option Nat} {t : Located}
    (h : ExtendsAt tail 1 (tail = []) x y ⟨p, [t]⟩) (hy : tail = [] → y' ⟨p, [t]⟩ = y ⟨p, [t]⟩) :
    ExtendsAt tail 1 (tail = []) x y' ⟨p, [t]⟩ := by
  refine h.congr_right fun a d hx hd => ?_
  have hlength := (h a d hx).2.1
  have hnil : d.rest = [] := List.eq_nil_of_length_eq_zero (by simpa using hlength)
  obtain rfl := hd.resolve_left (not_not_intro hnil)
  exact hy rfl

/-- Two readers in turn. The second may take nothing, so that both have to be safe. -/
lemma bind (hx : ExtendsAt tail m r x y c) (hs : s → r)
    (hf : ∀ a, Extends tail 0 s (f a) (g a)) : ExtendsAt tail m s (x >>= f) (y >>= g) c := by
  intro b d h
  obtain ⟨a, c', hxc, hfc⟩ := exists_of_bind h
  obtain ⟨hsuffix, hlength, hy⟩ := hx a c' hxc
  obtain ⟨hsuffix', hlength', hg⟩ := hf a c' b d hfc
  refine ⟨hsuffix'.trans hsuffix, by omega, fun hd => ?_⟩
  -- what the second left over, the first had left over too
  refine (bind_apply (hy ?_)).trans (hg hd)
  exact hd.imp (fun hd hc' => hd (List.suffix_nil.1 (hc' ▸ hsuffix'))) hs

/-- Two readers in turn. The second takes a token that the first left over, so that only the second
has to be safe. -/
lemma seq (hx : ExtendsAt tail m r x y c) (hf : ∀ a, Extends tail 1 s (f a) (g a)) :
    ExtendsAt tail 1 s (x >>= f) (y >>= g) c := by
  intro b d h
  obtain ⟨a, c', hxc, hfc⟩ := exists_of_bind h
  obtain ⟨hsuffix, hlength, hy⟩ := hx a c' hxc
  obtain ⟨hsuffix', hlength', hg⟩ := hf a c' b d hfc
  refine ⟨hsuffix'.trans hsuffix, by omega, fun hd => ?_⟩
  refine (bind_apply (hy (.inl ?_))).trans (hg hd)
  exact List.ne_nil_of_length_pos (by omega)

lemma skip {p : Option Nat} {t : Located} {rest : List Located} :
    ExtendsAt tail 1 s skip skip ⟨p, t :: rest⟩ := by
  rintro _ _ ⟨⟩
  exact ⟨List.suffix_cons t rest, Nat.le_refl _, fun _ => rfl⟩

/-- Behind a token that is passed over. -/
lemma skip_bind {h h' : Unit → Reader β} {p : Option Nat} {t : Located} {rest : List Located}
    (hf : Extends tail n s (h ()) (h' ())) :
    ExtendsAt tail 1 s (Reader.skip >>= h) (Reader.skip >>= h') ⟨p, t :: rest⟩ :=
  .bind .skip id fun _ c => (hf c).lax

end ExtendsAt

/-! ### Rules -/

namespace Extends

variable {α β : Type} {tail : List Located} {m n : Nat} {s r : Prop} {x y : Reader α}
  {f g : α → Reader β} {t : Token}

lemma of_fails (h : ∀ c a d, x c ≠ .ok (a, d)) : Extends tail n s x y :=
  fun c => .of_fails (h c)

lemma fail {e : SyntaxError} : Extends tail n s (fail e) y := by
  refine .of_fails fun c a d h => ?_
  cases h

lemma unexpected {sought : Expectation} : Extends tail n s (unexpected sought) y := by
  refine .of_fails fun c a d h => ?_
  cases h

lemma pure (a : α) : Extends tail 0 s (pure a) (pure a) := fun _ => .pure a

lemma bind (hx : Extends tail m r x y) (hs : s → r)
    (hf : ∀ a, Extends tail 0 s (f a) (g a)) : Extends tail m s (x >>= f) (y >>= g) :=
  fun c => (hx c).bind hs hf

lemma seq (hx : Extends tail m r x y) (hf : ∀ a, Extends tail 1 s (f a) (g a)) :
    Extends tail 1 s (x >>= f) (y >>= g) :=
  fun c => (hx c).seq hf

lemma branch {q : Prop} {i j : Decidable q} {x' y' : Reader α} (ht : Extends tail n s x y)
    (hf : Extends tail n s x' y') : Extends tail n s (@ite _ q i x x') (@ite _ q j y y') :=
  fun c => (ht c).branch (hf c)

lemma lax (h : Extends tail n s x y) : Extends tail 0 s x y := fun c => (h c).lax

/-- A token is passed over with those behind it in view. -/
lemma skip : Extends tail 0 False skip skip := by
  rintro ⟨p, _ | ⟨t, rest⟩⟩
  · rintro _ _ ⟨⟩
    exact ⟨List.suffix_rfl, Nat.le_refl _, fun hd => (hd.resolve_right id rfl).elim⟩
  · exact .lax .skip

/-- A reader that looks at the cursor first, by what it sees there. -/
lemma get {f g : Cursor → Reader α}
    (hcons : ∀ p t rest, ExtendsAt tail n s (f ⟨p, t :: rest⟩) (g ⟨p, t :: (rest ++ tail)⟩)
      ⟨p, t :: rest⟩)
    (hnil : ∀ p, ExtendsAt tail n s (f ⟨p, []⟩) (g ⟨p, tail⟩) ⟨p, []⟩) :
    Extends tail n s (get >>= f) (get >>= g) := by
  rintro ⟨p, _ | ⟨t, rest⟩⟩
  · exact hnil p
  · exact hcons p t rest

/-- A token that may come next, and what is read behind it or in its place. -/
lemma eat {f g : Bool → Reader α} (htrue : Extends tail m s (f true) (g true))
    (hfalse : Extends tail n s (f false) (g false)) (hn : n ≤ 1)
    (hs : s → (∀ u ∈ tail.head?, u.token ≠ t) ∨ 0 < n) :
    Extends tail n s (eat t >>= f) (eat t >>= g) := by
  rintro ⟨p, _ | ⟨u, rest⟩⟩ a d hx
  · have hnil : (Cursor.mk p []).head? ≠ some t := (Option.some_ne_none t).symm
    rw [eat_bind_of_ne hnil] at hx
    obtain ⟨hsuffix, hlength, hg⟩ := hfalse _ a d hx
    refine ⟨hsuffix, hlength, fun hd => ?_⟩
    have hother : ∀ u ∈ tail.head?, u.token ≠ t := by
      refine (hs (hd.resolve_left ?_)).resolve_right ?_
      · exact not_not_intro (List.suffix_nil.1 hsuffix)
      · rw [List.length_nil] at hlength
        omega
    rw [eat_bind_of_ne]
    · exact hg hd
    · intro hhead
      obtain ⟨u, hu, rfl⟩ := Option.map_eq_some_iff.1 hhead
      exact hother u hu rfl
  · rw [eat_bind_apply, Cursor.head?_cons] at hx
    show _ ∧ _ ∧ (_ → (Reader.eat t >>= g) ⟨p, u :: (rest ++ tail)⟩ = _)
    rw [eat_bind_apply, Cursor.head?_cons]
    split at hx
    · obtain ⟨hsuffix, hlength, hg⟩ := htrue ⟨some u.line, rest⟩ a d hx
      have hlength : d.rest.length + m ≤ rest.length := hlength
      rw [if_pos ‹_›]
      exact ⟨hsuffix.trans (List.suffix_cons u rest), by rw [List.length_cons]; omega, hg⟩
    · obtain ⟨hsuffix, hlength, hg⟩ := hfalse _ a d hx
      rw [if_neg ‹_›]
      exact ⟨hsuffix, hlength, hg⟩

lemma head?_of_eq_nil (h : tail = []) : ∀ u ∈ tail.head?, u.token ≠ t := by
  rw [h]
  intro u hu
  cases hu

lemma eat_bind {f g : Bool → Reader α} (htrue : Extends tail m s (f true) (g true))
    (hfalse : Extends tail 0 s (f false) (g false)) (hs : s → ∀ u ∈ tail.head?, u.token ≠ t) :
    Extends tail 0 s (Reader.eat t >>= f) (Reader.eat t >>= g) :=
  .eat htrue hfalse (Nat.zero_le 1) fun h => .inl (hs h)

/-- Where the token does not come next another one has to be taken. -/
lemma eat_seq {f g : Bool → Reader α} (htrue : Extends tail m s (f true) (g true))
    (hfalse : Extends tail 1 s (f false) (g false)) :
    Extends tail 1 s (Reader.eat t >>= f) (Reader.eat t >>= g) :=
  .eat htrue hfalse (Nat.le_refl 1) fun _ => .inr Nat.one_pos

lemma discard_eat : Extends tail 0 (∀ u ∈ tail.head?, u.token ≠ t) (discard (Reader.eat t))
    (discard (Reader.eat t)) :=
  eat_bind (f := fun _ => Pure.pure ()) (g := fun _ => Pure.pure ()) (.pure ()) (.pure ()) id

lemma expect : Extends tail 1 True (expect t) (expect t) :=
  .eat_seq (.pure ()) .unexpected

lemma name {role : String} : Extends tail 1 True (name role) (name role) := by
  refine .get (fun p t rest => ?_) fun p => unexpected _
  simp only [Cursor.head?_cons]
  split
  · exact .skip_bind (.pure _)
  · exact unexpected _

lemma paramNames {fuel fuel' : Nat} (h : fuel ≤ fuel') :
    Extends tail 1 True (paramNames fuel) (paramNames fuel') := by
  induction fuel generalizing fuel' with
  | zero => exact .unexpected
  | succ fuel ih =>
    obtain ⟨fuel', rfl⟩ : ∃ k, fuel' = k + 1 := ⟨fuel' - 1, by omega⟩
    refine .seq .name fun first => .eat_seq (.pure [first]) ?_
    exact .seq .expect fun _ => .bind (ih (by omega)) id fun rest => .pure _

lemma params : Extends tail 1 True params params := by
  refine .seq .expect fun _ => .eat_seq (.pure []) ?_
  rintro ⟨p, rest⟩
  have hfuel : rest.length + 1 ≤ (rest ++ tail).length + 1 := by simp
  exact fun a d hx => paramNames hfuel ⟨p, rest⟩ a d hx

end Extends

/-! ### The grammar -/

/-- An expression in parentheses. -/
def group (literal : LiteralReader) (fuel : Nat) : Reader Expr := do
  skip
  let e ← expressionAt literal fuel 1
  expect (.symbol .closeParen)
  return e

section

variable (literal : LiteralReader) (tail : List Located) (fuel fuel' : Nat)

/-- What the readers of the grammar read with a fuel, they read with another fuel and more tokens
behind. Statements and their parts may go on at the next token and are safe only if there is none;
an expression is safe before a token that ends it, and what closes itself before any token. -/
structure GrammarExtends : Prop where
  expressionAt (level : Nat) : Extends tail 1 (EndExpression tail)
    (expressionAt literal fuel level) (expressionAt literal fuel' level)
  operatorChain (level : Nat) (left : Expr) : Extends tail 0 (EndExpression tail)
    (operatorChain literal fuel level left) (operatorChain literal fuel' level left)
  suffixes (head : Expr) : Extends tail 0 (EndExpression tail)
    (suffixes literal fuel head) (suffixes literal fuel' head)
  callArguments : Extends tail 1 True (callArguments literal fuel) (callArguments literal fuel')
  arrayItems : Extends tail 0 (tail = []) (arrayItems literal fuel) (arrayItems literal fuel')
  primary : Extends tail 1 (EndExpression tail) (primary literal fuel) (primary literal fuel')
  lambdaBody (ps : List String) : Extends tail 1 (EndExpression tail)
    (lambdaBody literal fuel ps) (lambdaBody literal fuel' ps)
  block : Extends tail 1 True (block literal fuel) (block literal fuel')
  blockRest (opened : Nat) : Extends tail 1 True
    (blockRest literal fuel opened) (blockRest literal fuel' opened)
  statement : Extends tail 1 (tail = []) (statement literal fuel) (statement literal fuel')
  declaration (constant : Bool) : Extends tail 1 (tail = [])
    (declaration literal fuel constant) (declaration literal fuel' constant)
  moreBranches : Extends tail 0 (tail = []) (moreBranches literal fuel)
    (moreBranches literal fuel')
  command (word : String) (p : Option Nat) (t : Located) (rest : List Located) :
    ExtendsAt tail 1 (tail = []) (command literal fuel word) (command literal fuel' word)
      ⟨p, t :: rest⟩
  commandArguments : Extends tail 1 (tail = [])
    (commandArguments literal fuel) (commandArguments literal fuel')
  expressionStatement : Extends tail 1 (tail = [])
    (expressionStatement literal fuel) (expressionStatement literal fuel')

end

namespace GrammarExtends

variable {literal : LiteralReader} {tail : List Located} {fuel fuel' : Nat}

open Extends

lemma zero : GrammarExtends literal tail 0 fuel' := by
  constructor <;> intros <;> first | exact unexpected | exact unexpected _

variable (ih : GrammarExtends literal tail fuel fuel')
include ih

lemma expressionAt_succ (level : Nat) : Extends tail 1 (EndExpression tail)
    (Script.expressionAt literal (fuel + 1) level)
    (Script.expressionAt literal (fuel' + 1) level) := by
  rw [Script.expressionAt, Script.expressionAt]
  split
  · exact .bind (ih.expressionAt _) id fun left => ih.operatorChain level left
  refine .get (fun p t rest => ?_) fun p => ?_
  · simp only [Cursor.head?_cons]
    split
    · exact .skip_bind (.bind (ih.expressionAt level) id fun e => .pure _)
    · exact .skip_bind (.bind (ih.expressionAt level) id fun e => .pure _)
    · exact .skip_bind (ih.expressionAt level)
    · exact .bind (ih.primary _) id fun head => ih.suffixes head
  · exact .of_end (.bind (ih.primary _) id fun head => ih.suffixes head) rfl

lemma operatorChain_succ (level : Nat) (left : Expr) : Extends tail 0 (EndExpression tail)
    (Script.operatorChain literal (fuel + 1) level left)
    (Script.operatorChain literal (fuel' + 1) level left) := by
  rw [Script.operatorChain, Script.operatorChain]
  refine .get (fun p t rest => ?_) fun p => ?_
  · simp only [Cursor.operatorAt?, Cursor.head?_cons]
    split
    · exact .lax (.skip_bind (.bind (ih.expressionAt _) id fun right => ih.operatorChain level _))
    · exact .pure left
  · refine .pure_end fun h => ?_
    rw [h.operatorAt?]
    rfl

lemma suffixes_succ (head : Expr) : Extends tail 0 (EndExpression tail)
    (Script.suffixes literal (fuel + 1) head) (Script.suffixes literal (fuel' + 1) head) := by
  rw [Script.suffixes, Script.suffixes]
  refine .get (fun p t rest => ?_) fun p => ?_
  · simp only [Cursor.head?_cons, Cursor.onSameLine_cons]
    split
    · exact .lax (.skip_bind (.bind .name (fun _ => trivial) fun property => ih.suffixes _))
    · split
      · exact .lax (.skip_bind (.eat_seq (ih.suffixes _)
          (.bind ih.callArguments (fun _ => trivial) fun args => ih.suffixes _)))
      · exact .pure head
    · split
      · exact .lax (.skip_bind (.seq (ih.expressionAt 1) fun index =>
          .bind .expect (fun _ => trivial) fun _ => ih.suffixes _))
      · exact .pure head
    · exact .pure head
  · refine .pure_end fun h => ?_
    have hstop : Script.suffixes literal (fuel' + 1) head ⟨p, tail⟩ = _ := suffixes_stop h
    rwa [Script.suffixes, get_bind_apply] at hstop

lemma callArguments_succ : Extends tail 1 True
    (Script.callArguments literal (fuel + 1)) (Script.callArguments literal (fuel' + 1)) := by
  rw [Script.callArguments, Script.callArguments]
  exact .seq (ih.expressionAt 1) fun first => .eat_seq (.pure [first])
    (.seq .expect fun _ => .bind ih.callArguments id fun rest => .pure _)

lemma arrayItems_succ : Extends tail 0 (tail = [])
    (Script.arrayItems literal (fuel + 1)) (Script.arrayItems literal (fuel' + 1)) := by
  rw [Script.arrayItems, Script.arrayItems]
  have hitem : Extends tail 1 (tail = []) (do
      let first ← Script.expressionAt literal fuel 1
      if ← Reader.eat (.symbol .comma) then return first :: (← Script.arrayItems literal fuel)
      else return [first]) (do
      let first ← Script.expressionAt literal fuel' 1
      if ← Reader.eat (.symbol .comma) then return first :: (← Script.arrayItems literal fuel')
      else return [first]) :=
    .bind (ih.expressionAt 1) .of_eq_nil fun first =>
      .eat_bind (.bind ih.arrayItems id fun rest => .pure _) (.pure [first]) head?_of_eq_nil
  exact .get (fun p t rest => .branch (.pure []) (.lax (hitem _))) fun p => .of_end (hitem _) rfl

lemma lambdaBody_succ (ps : List String) : Extends tail 1 (EndExpression tail)
    (Script.lambdaBody literal (fuel + 1) ps) (Script.lambdaBody literal (fuel' + 1) ps) := by
  rw [Script.lambdaBody, Script.lambdaBody]
  exact .get (fun p t rest => .branch (.bind (ih.block _) (fun _ => trivial) fun body => .pure _)
    (.bind (ih.expressionAt 1 _) id fun e => .pure _))
    fun p => .of_end (.bind (ih.expressionAt 1 _) id fun e => .pure _) rfl

lemma block_succ : Extends tail 1 True
    (Script.block literal (fuel + 1)) (Script.block literal (fuel' + 1)) := by
  rw [Script.block, Script.block]
  exact .get (fun p t rest => .seq (expect _) fun _ => ih.blockRest _)
    fun p => .of_end (.seq (expect _) fun _ => ih.blockRest _) rfl

lemma blockRest_succ (opened : Nat) : Extends tail 1 True
    (Script.blockRest literal (fuel + 1) opened) (Script.blockRest literal (fuel' + 1) opened) := by
  rw [Script.blockRest, Script.blockRest]
  refine .get (fun p t rest => ?_) fun p => fail _
  refine .branch (.skip_bind (.pure [])) (.branch (.skip_bind (ih.blockRest opened)) ?_)
  exact .seq (ih.statement _) fun first => .bind (ih.blockRest opened) id fun rest => .pure _

lemma group (p : Option Nat) (t : Located) (rest : List Located) :
    ExtendsAt tail 1 (EndExpression tail) (Script.group literal fuel) (Script.group literal fuel')
      ⟨p, t :: rest⟩ :=
  .skip_bind (.seq (ih.expressionAt 1) fun e => .bind .expect (fun _ => trivial) fun _ => .pure e)

/-- Behind an expression in parentheses nothing changes whether an arrow follows. -/
lemma arrowFollows_group {p : Option Nat} {t : Located} {rest : List Located} {e : Expr}
    {d : Cursor} (h : Script.group literal fuel ⟨p, t :: rest⟩ = .ok (e, d))
    (hd : d.rest ≠ [] ∨ EndExpression tail) :
    arrowFollows true (rest ++ tail) = arrowFollows true rest := by
  have hread : (do
      let e ← Script.expressionAt literal fuel 1
      Reader.expect (.symbol .closeParen)
      return e : Reader Expr) ⟨some t.line, rest⟩ = .ok (e, d) := h
  obtain ⟨e, c, he, hread⟩ := exists_of_bind hread
  obtain ⟨_, d, hclose, hread⟩ := exists_of_bind hread
  obtain ⟨⟩ := hread
  obtain ⟨u, hu, hrest⟩ := exists_of_expect hclose
  have hsuffix : c.rest <:+ rest := (ih.expressionAt 1 _ _ c he).1
  exact arrowFollows_append_eq hu (hrest ▸ hsuffix) hd

lemma primary_succ : Extends tail 1 (EndExpression tail)
    (Script.primary literal (fuel + 1)) (Script.primary literal (fuel' + 1)) := by
  rw [Script.primary, Script.primary]
  refine .get (fun p t rest => ?_) fun p => unexpected _
  simp only [Cursor.head?_cons, Cursor.line_cons, List.drop_succ_cons, List.drop_zero]
  split
  · exact .skip_bind (.pure _)
  · refine .skip_bind (n := 0) ?_
    split
    · exact .pure _
    · exact fail
  · exact .skip_bind (.pure _)
  · exact .skip_bind (.pure _)
  · exact .skip_bind (.pure _)
  · exact .skip_bind (.eat_bind (ih.lambdaBody _) (.pure _) fun h => h.ne rfl)
  · exact .skip_bind (.seq .params fun ps => .seq .discard_eat fun _ => ih.lambdaBody ps)
  · by_cases harrow : arrowFollows true rest = true
    · rw [if_pos harrow, if_pos (arrowFollows_append tail harrow)]
      exact .seq (Extends.params _) fun ps => .seq .expect fun _ => ih.lambdaBody ps
    · -- more behind may complete a list of parameters, but not behind a closed group
      rw [if_neg harrow]
      refine (ih.group p t rest).congr_right fun a d hx hd => ?_
      rw [ih.arrowFollows_group hx hd, if_neg harrow]
      rfl
  · exact .skip_bind (.seq ih.arrayItems fun items => .bind .expect (fun _ => trivial) fun _ =>
      .pure _)
  · exact unexpected _

lemma statement_succ : Extends tail 1 (tail = [])
    (Script.statement literal (fuel + 1)) (Script.statement literal (fuel' + 1)) := by
  rw [Script.statement, Script.statement]
  refine .get (fun p t rest => ?_) fun p => .of_end (ih.expressionStatement _) rfl
  simp only [Cursor.head?_cons]
  split
  · exact .skip_bind (ih.declaration false)
  · exact .skip_bind (ih.declaration true)
  · -- the token behind `fn` is one of those behind the others only if they are used up
    cases rest with
    | nil => exact .of_last (ih.expressionStatement _) (by rintro rfl; rfl)
    | cons u rest =>
      simp only [Cursor.second?_cons, List.cons_append]
      split
      · exact .skip_bind (.seq .skip fun _ => .seq .params fun ps =>
          .bind ih.block (fun _ => trivial) fun body => .pure _)
      · exact ih.expressionStatement _
  · exact .skip_bind (.seq (ih.expressionAt 1) fun condition =>
      .bind ih.block (fun _ => trivial) fun body => .bind ih.moreBranches id fun _ => .pure _)
  · exact .skip_bind (.seq .name fun var => .seq .expect fun _ =>
      .seq (ih.expressionAt 1) fun first => .eat_seq
        (.seq (ih.expressionAt 1) fun stop => .bind ih.block (fun _ => trivial) fun body => .pure _)
        (.bind ih.block (fun _ => trivial) fun body => .pure _))
  · exact .skip_bind (.seq (ih.expressionAt 1) fun condition =>
      .bind ih.block (fun _ => trivial) fun body => .pure _)
  · exact .skip_bind (.seq ih.block fun body => .seq .expect fun _ =>
      .bind ih.block (fun _ => trivial) fun handler => .pure _)
  · refine .skip_bind (.get (fun p t rest => ?_) fun p => .pure_end (by rintro rfl; rfl))
    simp only [Cursor.onSameLine_cons, Cursor.head?_cons]
    exact .branch (.lax (.bind (ih.expressionAt 1 _) .of_eq_nil fun e => .pure _)) (.pure _)
  · exact .skip_bind (.bind (ih.expressionAt 1) .of_eq_nil fun e => .pure _)
  · exact .skip_bind (.pure _)
  · exact .skip_bind (.pure _)
  · exact .skip_bind ih.statement
  · exact .branch (ih.command _ p t rest) (ih.expressionStatement _)
  · exact ih.expressionStatement _

lemma declaration_succ (constant : Bool) : Extends tail 1 (tail = [])
    (Script.declaration literal (fuel + 1) constant)
    (Script.declaration literal (fuel' + 1) constant) := by
  rw [Script.declaration, Script.declaration]
  exact .bind .name (fun _ => trivial) fun var =>
    .eat_bind (.bind (ih.expressionAt 1) .of_eq_nil fun e => .pure _) (.pure _) head?_of_eq_nil

lemma moreBranches_succ : Extends tail 0 (tail = [])
    (Script.moreBranches literal (fuel + 1)) (Script.moreBranches literal (fuel' + 1)) := by
  rw [Script.moreBranches, Script.moreBranches]
  have hbranch := Extends.seq (ih.expressionAt 1) fun condition =>
    .bind ih.block (fun _ => trivial) fun body => .bind ih.moreBranches id fun later =>
      .pure (Branch.mk condition body :: later.1, later.2)
  have hblock : Extends tail 1 (tail = []) (do return ([], some (← Script.block literal fuel)))
      (do return (([] : List Branch), some (← Script.block literal fuel'))) :=
    .bind ih.block (fun _ => trivial) fun body => .pure _
  refine .get (fun p t rest => ?_) fun p => .pure_end (by rintro rfl; rfl)
  simp only [Cursor.head?_cons]
  split
  · exact .lax (.skip_bind hbranch)
  · refine .lax (n := 1) ?_
    cases rest with
    | nil =>
      have hlast : ExtendsAt tail 1 (tail = [])
          (do skip; return ([], some (← Script.block literal fuel)))
          (do skip; return ([], some (← Script.block literal fuel'))) ⟨p, [t]⟩ := .skip_bind hblock
      exact .of_last hlast (by rintro rfl; rfl)
    | cons u rest => exact .skip_bind (.branch (.seq .skip fun _ => hbranch) hblock)
  · exact .pure _

lemma command_succ (word : String) (p : Option Nat) (t : Located) (rest : List Located) :
    ExtendsAt tail 1 (tail = []) (Script.command literal (fuel + 1) word)
      (Script.command literal (fuel' + 1) word) ⟨p, t :: rest⟩ := by
  have hends : ExtendsAt tail 1 (tail = [])
      (do skip; return Stmt.expr (.callNamed word []))
      (do skip; return Stmt.expr (.callNamed word [])) ⟨p, t :: rest⟩ := .skip_bind (.pure _)
  cases rest with
  | nil => exact .of_last (hends.of_apply (command_of_ends rfl) rfl) fun _ => command_of_ends rfl
  | cons u rest =>
    cases hend : (Cursor.mk (some t.line) (u :: rest)).endsCommand with
    | true => exact hends.of_apply (command_of_ends hend) (command_of_ends hend)
    | false =>
      cases htakes : (Cursor.mk (some t.line) (u :: rest)).takesArguments with
      | true =>
        have harguments : ExtendsAt tail 1 (tail = [])
            (do skip; return Stmt.expr (.callNamed word (← Script.commandArguments literal fuel)))
            (do skip; return Stmt.expr (.callNamed word (← Script.commandArguments literal fuel')))
            ⟨p, t :: u :: rest⟩ :=
          .skip_bind (.bind ih.commandArguments id fun args => .pure _)
        exact harguments.of_apply (command_of_takes hend htakes) (command_of_takes hend htakes)
      | false =>
        exact (ih.expressionStatement _).of_apply (command_of_other hend htakes)
          (command_of_other hend htakes)

lemma commandArguments_succ : Extends tail 1 (tail = [])
    (Script.commandArguments literal (fuel + 1)) (Script.commandArguments literal (fuel' + 1)) := by
  rw [Script.commandArguments, Script.commandArguments]
  exact .bind (ih.expressionAt 1) .of_eq_nil fun first =>
    .eat_bind (.bind ih.commandArguments id fun rest => .pure _) (.pure [first]) head?_of_eq_nil

lemma expressionStatement_succ : Extends tail 1 (tail = [])
    (Script.expressionStatement literal (fuel + 1))
    (Script.expressionStatement literal (fuel' + 1)) := by
  rw [Script.expressionStatement, Script.expressionStatement]
  have hassign (e : Expr) (line : Nat) : Extends tail 0 (tail = [])
      (if e.isTarget then do return Stmt.assign e (← Script.expressionAt literal fuel 1)
        else Reader.fail (.invalidTarget line))
      (if e.isTarget then do return Stmt.assign e (← Script.expressionAt literal fuel' 1)
        else Reader.fail (.invalidTarget line)) :=
    .branch (.lax (.bind (ih.expressionAt 1) .of_eq_nil fun value => .pure _)) .fail
  have hrest (e : Expr) (line : Nat) : Extends tail 0 (tail = [])
      (do
        if ← Reader.eat (.symbol .assign) then
          if e.isTarget then return Stmt.assign e (← Script.expressionAt literal fuel 1)
          else Reader.fail (.invalidTarget line)
        else return .expr e)
      (do
        if ← Reader.eat (.symbol .assign) then
          if e.isTarget then return Stmt.assign e (← Script.expressionAt literal fuel' 1)
          else Reader.fail (.invalidTarget line)
        else return .expr e) :=
    .eat_bind (hassign e line) (.pure _) head?_of_eq_nil
  exact .get (fun p t rest => .bind (ih.expressionAt 1 _) .of_eq_nil fun e => hrest e _)
    fun p => .of_end (.bind (ih.expressionAt 1 _) .of_eq_nil fun e => hrest e _) rfl

theorem succ : GrammarExtends literal tail (fuel + 1) (fuel' + 1) where
  expressionAt := ih.expressionAt_succ
  operatorChain := ih.operatorChain_succ
  suffixes := ih.suffixes_succ
  callArguments := ih.callArguments_succ
  arrayItems := ih.arrayItems_succ
  primary := ih.primary_succ
  lambdaBody := ih.lambdaBody_succ
  block := ih.block_succ
  blockRest := ih.blockRest_succ
  statement := ih.statement_succ
  declaration := ih.declaration_succ
  moreBranches := ih.moreBranches_succ
  command := ih.command_succ
  commandArguments := ih.commandArguments_succ
  expressionStatement := ih.expressionStatement_succ

end GrammarExtends

/-- **What a reader of the grammar has read stays as it is** with more fuel and more tokens behind
the others. -/
theorem grammarExtends (literal : LiteralReader) (tail : List Located) {fuel fuel' : Nat}
    (h : fuel ≤ fuel') : GrammarExtends literal tail fuel fuel' := by
  induction fuel generalizing fuel' with
  | zero => exact .zero
  | succ fuel ih =>
    obtain ⟨fuel', rfl⟩ : ∃ k, fuel' = k + 1 := ⟨fuel' - 1, by omega⟩
    exact .succ (ih (by omega))

/-- A program is read with more fuel as well, if there was some for each token. -/
lemma programRest_more {literal : LiteralReader} {depth depth' fuel fuel' : Nat} {c d : Cursor}
    {program : Program}
    (h : programRest literal depth fuel c = .ok (program, d)) (hc : c.rest.length < fuel)
    (hc' : c.rest.length < fuel') (hdepth : depth ≤ depth') :
    programRest literal depth' fuel' c = .ok (program, d) := by
  induction fuel generalizing fuel' c program with
  | zero => omega
  | succ fuel ih =>
    obtain ⟨fuel', rfl⟩ : ∃ k, fuel' = k + 1 := ⟨fuel' - 1, by omega⟩
    obtain ⟨p, _ | ⟨t, rest⟩⟩ := c
    · exact h
    rw [List.length_cons] at hc hc'
    rw [programRest, get_bind_apply, Cursor.head?_cons] at h ⊢
    dsimp only at h ⊢
    by_cases hsemicolon : t.token = .symbol .semicolon
    · rw [if_pos hsemicolon] at h ⊢
      exact ih h (Nat.lt_of_succ_lt_succ hc) (Nat.lt_of_succ_lt_succ hc')
    rw [if_neg hsemicolon] at h ⊢
    by_cases hcloses : t.token.closesBlock = true
    · rw [if_pos hcloses] at h
      cases h
    rw [if_neg hcloses] at h ⊢
    obtain ⟨first, c', hfirst, h⟩ := exists_of_bind h
    obtain ⟨others, d', hothers, h⟩ := exists_of_bind h
    obtain ⟨⟩ := h
    -- a statement takes a token, so there is still some fuel for each of the others
    obtain ⟨-, hshorter, hmore⟩ := (grammarExtends literal [] hdepth).statement _ _ _ hfirst
    have hread := hmore (.inr rfl)
    rw [Cursor.before_nil, Cursor.before_nil] at hread
    have hlength : c'.rest.length ≤ rest.length := Nat.le_of_succ_le_succ hshorter
    exact (bind_apply hread).trans (bind_apply (ih hothers (by omega) (by omega)))

/-! ### The token before -/

/-- A reader that does not look at the token before the first. Calls and indices do, which an
expression cannot begin with. -/
def Fresh {α : Type} (x : Reader α) : Prop :=
  ∀ p q t rest, x ⟨p, t :: rest⟩ = x ⟨q, t :: rest⟩

namespace Fresh

variable {α β : Type} {x : Reader α}

lemma bind {f : α → Reader β} (hx : Fresh x) : Fresh (x >>= f) := by
  intro p q t rest
  show Except.bind (x _) _ = Except.bind (x _) _
  rw [hx p q t rest]

lemma get {f : Cursor → Reader α} (hsame : ∀ p q t rest, f ⟨p, t :: rest⟩ = f ⟨q, t :: rest⟩)
    (hf : ∀ p t rest, Fresh (f ⟨p, t :: rest⟩)) : Fresh (get >>= f) := by
  intro p q t rest
  rw [get_bind_apply, get_bind_apply, hsame p q]
  exact hf q t rest p q t rest

lemma skip_bind {f : Unit → Reader α} : Fresh (Reader.skip >>= f) := fun _ _ _ _ => rfl

lemma unexpected {sought : Expectation} : Fresh (unexpected sought : Reader α) :=
  fun _ _ _ _ => rfl

lemma branch {q : Prop} [Decidable q] {x y : Reader α} (hx : Fresh x) (hy : Fresh y) :
    Fresh (if q then x else y) := by
  split
  · exact hx
  · exact hy

lemma expect {t : Token} : Fresh (expect t) := by
  intro p q u rest
  show (eat t >>= _) _ = (eat t >>= _) _
  rw [eat_bind_apply, eat_bind_apply]
  rfl

variable {literal : LiteralReader}

lemma primary (fuel : Nat) : Fresh (primary literal fuel) := by
  cases fuel with
  | zero => exact unexpected
  | succ fuel =>
    rw [Script.primary]
    refine .get (fun _ _ _ _ => rfl) fun p t rest => ?_
    simp only [Cursor.head?_cons, Cursor.line_cons, List.drop_succ_cons, List.drop_zero]
    split
    · exact skip_bind
    · exact skip_bind
    · exact skip_bind
    · exact skip_bind
    · exact skip_bind
    · exact skip_bind
    · exact skip_bind
    · exact .branch (.bind (.bind .expect)) skip_bind
    · exact skip_bind
    · exact unexpected

lemma expressionAt (fuel level : Nat) : Fresh (expressionAt literal fuel level) := by
  induction fuel generalizing level with
  | zero => exact unexpected
  | succ fuel ih =>
    rw [Script.expressionAt]
    refine .branch (.bind (ih _)) (.get (fun _ _ _ _ => rfl) fun p t rest => ?_)
    simp only [Cursor.head?_cons]
    split
    · exact skip_bind
    · exact skip_bind
    · exact skip_bind
    · exact .bind (primary fuel)

lemma expressionStatement (fuel : Nat) : Fresh (expressionStatement literal fuel) := by
  cases fuel with
  | zero => exact unexpected
  | succ fuel =>
    rw [Script.expressionStatement]
    exact .get (fun _ _ _ _ => rfl) fun p t rest => .bind (expressionAt fuel 1)

lemma command (fuel : Nat) (word : String) : Fresh (command literal fuel word) := by
  cases fuel with
  | zero => exact unexpected
  | succ fuel =>
    intro p q t rest
    rw [command_apply, command_apply, expressionStatement fuel p q t rest]
    rfl

lemma statement (fuel : Nat) : Fresh (statement literal fuel) := by
  cases fuel with
  | zero => exact unexpected
  | succ fuel =>
    rw [Script.statement]
    refine .get (fun _ _ _ _ => rfl) fun p t rest => ?_
    simp only [Cursor.head?_cons]
    split
    · exact skip_bind
    · exact skip_bind
    · split
      · exact skip_bind
      · exact expressionStatement fuel
    · exact skip_bind
    · exact skip_bind
    · exact skip_bind
    · exact skip_bind
    · exact skip_bind
    · exact skip_bind
    · exact skip_bind
    · exact skip_bind
    · exact skip_bind
    · exact .branch (command fuel _) (expressionStatement fuel)
    · exact expressionStatement fuel

lemma programRest (depth fuel : Nat) : Fresh (programRest literal depth (fuel + 1)) := by
  rw [Script.programRest]
  exact .get (fun _ _ _ _ => rfl) fun p t rest =>
    .branch skip_bind (.branch unexpected (.bind (statement depth)))

end Fresh

/-- What a program holds does not depend on the token before it. -/
lemma programRest_of_programOf {literal : LiteralReader} {tail : List Located}
    {program : Program} {depth fuel : Nat}
    (h : programOf literal tail = .ok program) (hfuel : tail.length < fuel)
    (hdepth : enoughFor tail ≤ depth) (p : Option Nat) :
    ∃ d, programRest literal depth fuel ⟨p, tail⟩ = .ok (program, d) := by
  obtain ⟨d, h⟩ := exists_of_run' h
  have hmore := programRest_more h (Nat.lt_succ_self _) hfuel hdepth
  obtain ⟨fuel, rfl⟩ : ∃ k, fuel = k + 1 := ⟨fuel - 1, by omega⟩
  cases tail with
  | nil =>
    obtain ⟨⟩ := hmore
    exact ⟨_, rfl⟩
  | cons t rest => exact ⟨d, (Fresh.programRest depth fuel p none t rest).trans hmore⟩

end ScriptedNotes.Script
