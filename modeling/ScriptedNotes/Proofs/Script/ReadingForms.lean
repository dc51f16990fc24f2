import ScriptedNotes.Proofs.Script.Reading

/-!
The forms of expressions on printed pieces, for any printer and any reader of literals: the tokens
that are an expression by themselves, groups and arrays, what may stand behind an expression, and
lists of parameters. `ReadsBack` says that what a printer writes for an expression is read back
where a whole expression may stand.
-/

namespace ScriptedNotes.Script

open Reader

section

variable {literal : LiteralReader} {write : Expr → List Piece} {e e' : Expr} {es : List Expr}
  {fuel line : Nat} {previous : Option Nat} {rest rest' : List Piece}

/-- What is written for an expression begins like one, and is read back before whatever ends it. A
fuel of sixteen for a token is enough. -/
structure ReadsBack (literal : LiteralReader) (write : Expr → List Piece) (e : Expr) : Prop where
  begins : ∃ t ps, write e = .token t :: ps ∧ t.startsExpression = true
  reads {fuel line : Nat} {previous : Option Nat} {rest : List Piece} :
    16 * tokenCount (write e) ≤ fuel → Stops 1 rest →
    Reads (expressionAt literal fuel 1) (.facing previous line (write e ++ rest)) e rest

lemma ReadsBack.nextToken_ne (h : ReadsBack literal write e) {t : Token}
    (ht : t.startsExpression = false) (rest : List Piece) :
    nextToken (write e ++ rest) ≠ some t := by
  obtain ⟨u, ps, hpieces, hu⟩ := h.begins
  rw [hpieces]
  rintro ⟨⟩
  exact Bool.noConfusion (hu.symm.trans ht)

/-! ### Tokens that are an expression -/

lemma reads_number {x : Float} :
    Reads (primary literal (fuel + 1)) (.facing previous line (.token (.number x) :: rest))
      (.number x) rest :=
  .via (do skip; return .number x) rfl (.bind .skip fun _ => .pure)

lemma reads_string {raw : String} (h : ∀ line, literal raw line = .ok e) :
    Reads (primary literal (fuel + 1)) (.facing previous line (.token (.string raw) :: rest))
      e rest := by
  refine ⟨line, ?_⟩
  have hhead : (Cursor.facing previous line (.token (.string raw) :: rest)).head? =
      some (.string raw) := rfl
  rw [primary, get_bind_apply, hhead]
  dsimp only
  rw [h]
  rfl

lemma reads_true :
    Reads (primary literal (fuel + 1)) (.facing previous line (.keyword .trueKw :: rest))
      (.bool true) rest :=
  .via (do skip; return .bool true) rfl (.bind .skip fun _ => .pure)

lemma reads_false :
    Reads (primary literal (fuel + 1)) (.facing previous line (.keyword .falseKw :: rest))
      (.bool false) rest :=
  .via (do skip; return .bool false) rfl (.bind .skip fun _ => .pure)

lemma reads_nil :
    Reads (primary literal (fuel + 1)) (.facing previous line (.keyword .nilKw :: rest))
      .nil rest :=
  .via (do skip; return .nil) rfl (.bind .skip fun _ => .pure)

/-- A name is read alone when no arrow makes it a parameter. -/
lemma reads_ident {s : String} (harrow : nextToken rest ≠ some (.symbol .arrow)) :
    Reads (primary literal (fuel + 1)) (.facing previous line (.name s :: rest)) (.ident s) rest :=
  .via (do
    skip
    if ← eat (.symbol .arrow) then lambdaBody literal fuel [s] else return .ident s) rfl
    (.bind .skip fun _ => .bind (.eat_other harrow) fun _ => .pure)

/-! ### Groups and arrays -/

/-- Behind a name anything but a comma or a closing parenthesis ends a list of parameters. -/
lemma arrowFollows_other {t : Token} {line : Nat} {ps : List Piece}
    (hclose : t ≠ .symbol .closeParen) (hcomma : t ≠ .symbol .comma) :
    arrowFollows false (placed line (.token t :: ps)) = false := by
  rw [placed, arrowFollows]
  split
  · next h => exact (hclose h).elim
  · rfl
  · next h => exact (hcomma h).elim
  · rfl

/-- A group is read when what stands inside it is. -/
lemma reads_group {ps : List Piece}
    (hgroup : arrowFollows true (placed line (ps ++ .symbol .closeParen :: rest)) = false)
    (h : ∀ line, Reads (expressionAt literal fuel 1)
      (.behind line (ps ++ .symbol .closeParen :: rest)) e (.symbol .closeParen :: rest)) :
    Reads (primary literal (fuel + 1)) (.facing previous line (parenthesised ps ++ rest))
      e rest := by
  have hpieces : parenthesised ps ++ rest =
      .symbol .openParen :: (ps ++ .symbol .closeParen :: rest) := by simp [parenthesised]
  have hread : Reads (do
      skip
      let e ← expressionAt literal fuel 1
      expect (.symbol .closeParen)
      return e) (.facing previous line (.symbol .openParen :: (ps ++ .symbol .closeParen :: rest)))
      e rest :=
    .bind .skip fun line => .bind (h line) fun _ => .bind .expect fun _ => .pure
  obtain ⟨line', hread⟩ := hread
  refine ⟨line', ?_⟩
  rw [hpieces, Script.primary]
  show (if arrowFollows true (placed line (ps ++ .symbol .closeParen :: rest)) then _ else _ :
    Reader Expr) _ = _
  rw [hgroup]
  exact hread

lemma reads_arrayItems (hitems : ∀ e ∈ es, ReadsBack literal write e)
    (hfuel : 16 * tokenCount (separated (es.map write)) < fuel) :
    Reads (arrayItems literal fuel)
      (.behind line (separated (es.map write) ++ .symbol .closeBracket :: rest))
      es (.symbol .closeBracket :: rest) := by
  induction es generalizing fuel line with
  | nil =>
    obtain ⟨f, rfl⟩ : ∃ f, fuel = f + 1 := ⟨fuel - 1, by omega⟩
    rw [arrayItems]
    exact .via (pure []) rfl .pure
  | cons e items ih =>
    obtain ⟨f, rfl⟩ : ∃ f, fuel = f + 1 := ⟨fuel - 1, by omega⟩
    obtain ⟨he, hitems⟩ := List.forall_mem_cons.1 hitems
    cases items with
    | nil =>
      refine .via _ (arrayItems_of_item ?_) ?_
      · rw [facing_head?]
        exact he.nextToken_ne rfl _
      refine .bind (he.reads (Nat.lt_succ_iff.1 hfuel) (.token rfl)) fun line => ?_
      exact .bind (.eat_other (by simp [nextToken])) fun _ => .pure
    | cons e' items =>
      have hpieces : separated ((e :: e' :: items).map write) =
        write e ++ .symbol .comma :: separated ((e' :: items).map write) := rfl
      rw [hpieces] at hfuel ⊢
      simp only [tokenCount_append, tokenCount_token] at hfuel
      rw [List.append_assoc, List.cons_append]
      refine .via _ (arrayItems_of_item ?_) ?_
      · rw [facing_head?]
        exact he.nextToken_ne rfl _
      refine .bind (he.reads (by omega) (.token rfl)) fun line => ?_
      refine .bind .eat fun line => ?_
      exact .bind (ih hitems (by omega)) fun _ => .pure

lemma reads_array (hitems : ∀ e ∈ es, ReadsBack literal write e)
    (hfuel : 16 * tokenCount (separated (es.map write)) < fuel) :
    Reads (primary literal (fuel + 1)) (.facing previous line
      (.symbol .openBracket :: (separated (es.map write) ++ .symbol .closeBracket :: rest)))
      (.array es) rest :=
  .via (do
    skip
    let items ← arrayItems literal fuel
    expect (.symbol .closeBracket)
    return .array items) rfl
    (.bind .skip fun _ => .bind (reads_arrayItems hitems hfuel) fun _ => .bind .expect fun _ =>
      .pure)

/-! ### Behind an expression -/

/-- A member is taken, and reading goes on behind it. -/
lemma reads_suffixes_member {property : String}
    (h : ∀ line, Reads (suffixes literal fuel (.member e property)) (.behind line rest) e' rest') :
    Reads (suffixes literal (fuel + 1) e)
      (.behind line (.symbol .dot :: .name property :: rest)) e' rest' :=
  .via (do
    skip
    let property ← name "property name"
    suffixes literal fuel (.member e property)) rfl
    (.bind .skip fun _ => .bind .name h)

lemma reads_callArguments (hargs : ∀ e ∈ es, ReadsBack literal write e)
    (hne : es ≠ []) (hfuel : 16 * tokenCount (separated (es.map write)) < fuel) :
    Reads (callArguments literal fuel)
      (.facing previous line (separated (es.map write) ++ .symbol .closeParen :: rest))
      es rest := by
  induction es generalizing fuel previous line with
  | nil => exact (hne rfl).elim
  | cons e args ih =>
    obtain ⟨f, rfl⟩ : ∃ f, fuel = f + 1 := ⟨fuel - 1, by omega⟩
    obtain ⟨he, hargs⟩ := List.forall_mem_cons.1 hargs
    rw [callArguments]
    cases args with
    | nil =>
      refine .bind (he.reads (Nat.lt_succ_iff.1 hfuel) (.token rfl)) fun line => ?_
      exact .bind .eat fun _ => .pure
    | cons e' args =>
      have hpieces : separated ((e :: e' :: args).map write) =
        write e ++ .symbol .comma :: separated ((e' :: args).map write) := rfl
      rw [hpieces] at hfuel ⊢
      simp only [tokenCount_append, tokenCount_token] at hfuel
      rw [List.append_assoc, List.cons_append]
      refine .bind (he.reads (by omega) (.token rfl)) fun line => ?_
      refine .bind (.eat_other (by simp [nextToken])) fun line => ?_
      refine .bind .expect fun line => ?_
      exact .bind (ih hargs (by simp) (by omega)) fun _ => .pure

lemma nextToken_separated_ne (es : List Expr) (he : ReadsBack literal write e) {t : Token}
    (ht : t.startsExpression = false) (rest : List Piece) :
    nextToken (separated ((e :: es).map write) ++ rest) ≠ some t := by
  match es with
  | [] => exact he.nextToken_ne ht rest
  | e' :: es =>
    simp only [List.map_cons, separated, List.append_assoc]
    exact he.nextToken_ne ht _

/-- A call is taken with its arguments, and reading goes on behind it. -/
lemma reads_suffixes_call (hargs : ∀ e ∈ es, ReadsBack literal write e)
    (hfuel : 16 * tokenCount (separated (es.map write)) < fuel)
    (h : ∀ line, Reads (suffixes literal fuel (.call e es)) (.behind line rest) e' rest') :
    Reads (suffixes literal (fuel + 1) e)
      (.behind line (parenthesised (separated (es.map write)) ++ rest)) e' rest' := by
  have hpieces : parenthesised (separated (es.map write)) ++ rest =
      .symbol .openParen :: (separated (es.map write) ++ .symbol .closeParen :: rest) := by
    simp [parenthesised]
  rw [hpieces, suffixes]
  refine .via (do
    skip
    if ← eat (.symbol .closeParen) then suffixes literal fuel (.call e [])
    else
      let args ← callArguments literal fuel
      suffixes literal fuel (.call e args)) ?_ ?_
  · show (if (Cursor.behind line (.symbol .openParen :: _)).onSameLine then _ else _ :
      Reader Expr) _ = _
    rw [onSameLine_token]
    rfl
  refine .bind .skip fun line => ?_
  cases es with
  | nil => exact .bind .eat h
  | cons first args =>
    refine .bind (.eat_other ?_) fun line => ?_
    · exact nextToken_separated_ne args (hargs first List.mem_cons_self) rfl _
    exact .bind (reads_callArguments hargs (List.cons_ne_nil _ _) hfuel) h

/-- An index is taken, and reading goes on behind it. -/
lemma reads_suffixes_index {index : Expr} (hindex : ReadsBack literal write index)
    (hfuel : 16 * tokenCount (write index) ≤ fuel)
    (h : ∀ line, Reads (suffixes literal fuel (.index e index)) (.behind line rest) e' rest') :
    Reads (suffixes literal (fuel + 1) e)
      (.behind line (.symbol .openBracket :: (write index ++ .symbol .closeBracket :: rest)))
      e' rest' := by
  rw [suffixes]
  refine .via (do
    skip
    let index ← expressionAt literal fuel 1
    expect (.symbol .closeBracket)
    suffixes literal fuel (.index e index)) ?_ ?_
  · show (if (Cursor.behind line (.symbol .openBracket :: _)).onSameLine then _ else _ :
      Reader Expr) _ = _
    rw [onSameLine_token]
    rfl
  refine .bind .skip fun line => ?_
  exact .bind (hindex.reads hfuel (.token rfl)) fun line => .bind .expect h

end

/-! ### Parameters -/

section

variable {fuel line : Nat} {previous : Option Nat} {rest : List Piece}

lemma length_le_tokenCount (params : List String) :
    params.length ≤ tokenCount (separated (params.map fun p => [.name p])) := by
  induction params with
  | nil => simp [separated]
  | cons p params ih =>
    match params with
    | [] => simp [separated]
    | q :: params =>
      simp only [List.map_cons, separated, tokenCount_append, tokenCount_token] at ih ⊢
      simp only [List.length_cons] at ih ⊢
      omega

lemma reads_paramNames {params : List String} (hne : params ≠ []) (hfuel : params.length ≤ fuel) :
    Reads (paramNames fuel) (.facing previous line
      (separated (params.map fun p => [.name p]) ++ .symbol .closeParen :: rest)) params rest := by
  induction params generalizing fuel previous line with
  | nil => exact (hne rfl).elim
  | cons p params ih =>
    obtain ⟨f, rfl⟩ : ∃ f, fuel = f + 1 := ⟨fuel - 1, by simp at hfuel; omega⟩
    rw [paramNames]
    match params with
    | [] => exact .bind .name fun _ => .bind .eat fun _ => .pure
    | q :: params =>
      refine .bind .name fun line => .bind (.eat_other (by simp [nextToken])) fun line => ?_
      refine .bind .expect fun line => ?_
      exact .bind (ih (by simp) (Nat.le_of_succ_le_succ hfuel)) fun _ => .pure

/-- A list of parameters is read back. -/
lemma reads_params (params : List String) :
    Reads Script.params (.facing previous line (paramList params ++ rest)) params rest := by
  have hpieces : paramList params ++ rest = .symbol .openParen ::
      (separated (params.map fun p => [.name p]) ++ .symbol .closeParen :: rest) := by
    simp [paramList, parenthesised]
  rw [hpieces]
  refine .bind .expect fun line => ?_
  match params with
  | [] => exact .bind .eat fun _ => .pure
  | p :: params =>
    refine .bind (.eat_other ?_) fun line => ?_
    · cases params <;> simp [separated, nextToken]
    · refine .via (paramNames ((placed line _).length + 1)) rfl (reads_paramNames (by simp) ?_)
      have hle := length_le_tokenCount (p :: params)
      rw [length_placed, tokenCount_append]
      omega

end

/-! ### Single expressions -/

/-- Whatever bytes the tokens cover, an expression that is read up to their end is what they
write. -/
lemma expressionOf_printed {literal : LiteralReader} {e : Expr} {line : Nat} {ps : List Piece}
    {tokens : List Located} (htokens : tokens.map Located.mark = printed line ps)
    (h : Reads (expressionAt literal (enoughFor tokens) 1) (.facing none line ps) e []) :
    expressionOf literal tokens = .ok e ∧ ∃ c : Cursor, c.rest = [] ∧
      expressionAt literal (enoughFor tokens) 1 (.ofTokens tokens) = .ok (e, c) := by
  obtain ⟨line', h⟩ := h
  have hforall := forall₂_mark ((map_mark_placed line ps).trans htokens.symm)
  have halike : Cursor.Alike (fun t u => t.mark = u.mark) (.facing none line ps)
    (.ofTokens tokens) := ⟨rfl, hforall⟩
  have hlockstep := (grammarInLockstep (faithful_mark literal) (enoughFor tokens)).expressionAt 1
  obtain ⟨c, hread, hc⟩ := hlockstep.of_ok halike h
  have hend : c.rest = [] := List.forall₂_nil_left_iff.1 hc.rest
  refine ⟨?_, c, hend, hread⟩
  show (·.1) <$> (expressionAt literal (enoughFor tokens) 1 >>= fun e => do
    expectEnd
    return e : Reader Expr) (.ofTokens tokens) = _
  obtain ⟨previous, rest⟩ := c
  obtain rfl : rest = [] := hend
  rw [bind_apply hread]
  rfl

/-- A literal by itself is what its reader makes of it. -/
lemma expressionOf_literal {literal : LiteralReader} {raw : String} {e : Expr}
    (h : ∀ line, literal raw line = .ok e) (start stop line : Nat) :
    expressionOf literal [⟨.string raw, start, stop, line⟩] = .ok e := by
  have hmarks : [(⟨.string raw, start, stop, line⟩ : Located)].map Located.mark =
    printed line [.token (.string raw)] := rfl
  refine (expressionOf_printed hmarks ?_).1
  show Reads (expressionAt literal 60 1) _ e []
  have hstops : Stops 1 [] := FreshLine.nil.stops
  refine reads_expressionAt_down 7 (by decide) (Nat.le_refl 7) (by decide) hstops ?_
  refine reads_expressionAt_seven (fun t ht => by cases ht; rfl) (reads_string h) fun line => ?_
  exact reads_suffixes_stop hstops

end ScriptedNotes.Script
