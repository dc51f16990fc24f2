import ScriptedNotes.Proofs.Script.SourceLines

/-!
Sources of commands. What a line of commands is compiled to depends on that line alone, so a source
is compiled by compiling its lines, and two sources with a line feed between them are compiled by
compiling each of them (`commands_compositional`).
-/

namespace ScriptedNotes.Script

open Text

/-! ### Statements of lines -/

/-- The statements of lines of commands, if each line can be read. -/
def statementsOf (ls : List (List Char)) : Option Program :=
  (commandsFrom 1 ls).toOption

section Statements

variable {l : List Char} {ls ms : List (List Char)} {p : Program}

/-- The number of a line matters for messages only. -/
lemma commandOf_number (m n : Nat) (l : List Char) :
    (commandOf m l).toOption = (commandOf n l).toOption := by
  unfold commandOf
  dsimp only
  split_ifs
  · rfl
  · rfl
  · rfl
  · rfl
  · cases parseArguments (splitWord (trim l)).2 <;> rfl
  · rfl

lemma commandsFrom_cons (n : Nat) (l : List Char) (ls : List (List Char)) :
    (commandsFrom n (l :: ls)).toOption = (commandOf n l).toOption.bind fun here =>
      (commandsFrom (n + 1) ls).toOption.map (here.toList ++ ·) := by
  rw [commandsFrom]
  cases commandOf n l with
  | error e => rfl
  | ok here =>
    cases commandsFrom (n + 1) ls <;>
      simp [bind, Except.bind, pure, Except.pure, Except.toOption]

lemma commandsFrom_number (m n : Nat) (ls : List (List Char)) :
    (commandsFrom m ls).toOption = (commandsFrom n ls).toOption := by
  induction ls generalizing m n with
  | nil => rfl
  | cons l ls ih =>
    rw [commandsFrom_cons, commandsFrom_cons, commandOf_number m n, ih (m + 1) (n + 1)]

lemma statementsOf_cons (l : List Char) (ls : List (List Char)) :
    statementsOf (l :: ls) = (commandOf 1 l).toOption.bind fun here =>
      (statementsOf ls).map (here.toList ++ ·) := by
  rw [statementsOf, commandsFrom_cons, commandsFrom_number (1 + 1) 1]
  rfl

/-- The lines of two lists of lines are read apart. -/
lemma statementsOf_append_eq_some_iff : statementsOf (ls ++ ms) = some p ↔
    ∃ above below, statementsOf ls = some above ∧ statementsOf ms = some below ∧
      p = above ++ below := by
  induction ls generalizing p with
  | nil =>
    have hnil : statementsOf [] = some [] := rfl
    simp [hnil]
  | cons l ls ih =>
    rw [List.cons_append, statementsOf_cons, statementsOf_cons]
    cases (commandOf 1 l).toOption with
    | none => simp
    | some here =>
      simp only [Option.bind_some, Option.map_eq_some_iff, ih]
      constructor
      · rintro ⟨-, ⟨above, below, habove, hbelow, rfl⟩, rfl⟩
        exact ⟨here.toList ++ above, below, ⟨above, habove, rfl⟩, hbelow,
          (List.append_assoc _ _ _).symm⟩
      · rintro ⟨-, below, ⟨above, habove, rfl⟩, hbelow, rfl⟩
        exact ⟨above ++ below, ⟨above, below, habove, hbelow, rfl⟩,
          (List.append_assoc _ _ _).symm⟩

lemma commandOf_return (n : Nat) (l : List Char) : commandOf n (l ++ ['\r']) = commandOf n l := by
  unfold commandOf
  rw [trim_concat_of_isBlank (by decide)]

lemma lineWise_statementsOf : LineWise statementsOf where
  emptyLast := rfl
  lineReturn l ls := by
    rw [statementsOf_cons, statementsOf_cons, commandOf_return]
  cons l ls ls' h := by
    rw [statementsOf_cons, statementsOf_cons, h]

end Statements

/-! ### Compiling -/

section Compiling

variable {a b s : List Char} {p q : Program} {place : Place} {result : Compiled}

lemma placedStmts_append :
    placedStmts place (p ++ q) = .ok () ↔
      placedStmts place p = .ok () ∧ placedStmts place q = .ok () := by
  induction p with
  | nil => simp [placedStmts]
  | cons stmt p ih =>
    rw [List.cons_append, placedStmts, placedStmts]
    cases placedStmt place stmt with
    | error e => simp [bind, Except.bind]
    | ok _ => exact ih

/-- A source of commands is compiled to the statements of its lines, if they pass the check. -/
lemma compile_eq_ok_iff (h : IsCommands s) : compile s = .ok result ↔
    statementsOf (codeLines s) = some result.program ∧ placedStmts {} result.program = .ok () ∧
      result.tier = .simpleCommand := by
  have htier : Tier.ofSource (stripComments s) = .simpleCommand := h
  have hlines : (commands (stripComments s)).toOption = statementsOf (codeLines s) :=
    lineWise_statementsOf.stripComments s
  rw [compile_eq_placedIn, htier, programIn, ← hlines]
  cases commands (stripComments s) with
  | error e => simp [placedIn, bind, Except.bind, Except.toOption]
  | ok p =>
    obtain ⟨tier, program⟩ := result
    show (placedStmts {} p).bind _ = _ ↔ _
    cases hplaced : placedStmts {} p with
    | error e =>
      simp only [Except.bind, Except.toOption, Option.some.injEq, reduceCtorEq, false_iff]
      rintro ⟨rfl, hp, -⟩
      rw [hplaced] at hp
      cases hp
    | ok _ =>
      simp only [Except.bind, Except.toOption, Option.some.injEq]
      constructor
      · rintro ⟨⟩
        exact ⟨rfl, hplaced, rfl⟩
      · rintro ⟨rfl, -, rfl⟩
        rfl

/-- A line of its own is compiled to its command. -/
lemma compile_line {l : List Char} {stmt : Stmt} (h : IsCommands s) (hl : codeLines s = [l])
    (hread : commandOf 1 l = .ok (some stmt)) (hplaced : placedStmt {} stmt = .ok ()) :
    compile s = .ok ⟨.simpleCommand, [stmt]⟩ := by
  have hstatements : statementsOf [l] = some [stmt] := by
    rw [statementsOf_cons, hread]
    rfl
  refine (compile_eq_ok_iff h).2 ⟨by rw [hl, hstatements], ?_, rfl⟩
  rw [placedStmts, hplaced]
  rfl

lemma codeLines_append_feed (a b : List Char) :
    codeLines (a ++ '\n' :: b) = codeLines a ++ codeLines b := by
  rw [codeLines, pieces_append_feed, List.map_append]
  rfl

lemma isCommands_append_feed : IsCommands (a ++ '\n' :: b) ↔ IsCommands a ∧ IsCommands b := by
  rw [isCommands_iff, isCommands_iff, isCommands_iff, codeLines_append_feed, List.any_append,
    Bool.or_eq_false_iff]

lemma compile_append_feed (ha : IsCommands a) (hb : IsCommands b) :
    compile (a ++ '\n' :: b) = .ok result ↔
      ∃ above below, compile a = .ok above ∧ compile b = .ok below ∧
        result = ⟨.simpleCommand, above.program ++ below.program⟩ := by
  rw [compile_eq_ok_iff (isCommands_append_feed.2 ⟨ha, hb⟩), codeLines_append_feed,
    statementsOf_append_eq_some_iff]
  simp only [compile_eq_ok_iff ha, compile_eq_ok_iff hb]
  constructor
  · obtain ⟨tier, program⟩ := result
    rintro ⟨⟨above, below, habove, hbelow, rfl⟩, hplaced, rfl⟩
    obtain ⟨hpa, hpb⟩ := placedStmts_append.1 hplaced
    exact ⟨⟨.simpleCommand, above⟩, ⟨.simpleCommand, below⟩, ⟨habove, hpa, rfl⟩,
      ⟨hbelow, hpb, rfl⟩, rfl⟩
  · rintro ⟨above, below, ⟨habove, hpa, -⟩, ⟨hbelow, hpb, -⟩, rfl⟩
    exact ⟨⟨above.program, below.program, habove, hbelow, rfl⟩,
      placedStmts_append.2 ⟨hpa, hpb⟩, rfl⟩

/-- A source of commands is compiled by compiling each of its lines. -/
lemma compile_iff_lines (h : IsCommands s) : compile s = .ok result ↔
    ∃ parts, List.Forall₂ (fun l part => compile l = .ok part) (pieces s) parts ∧
      result = ⟨.simpleCommand, parts.flatMap Compiled.program⟩ := by
  induction hn : s.length using Nat.strong_induction_on generalizing s result with
  | _ n ih =>
    rcases eq_append_feed s with hs | ⟨l, rest, hl, rfl⟩
    · rw [pieces_of_not_mem hs]
      simp only [List.forall₂_cons_left_iff, List.forall₂_nil_left_iff]
      constructor
      · intro hcompile
        obtain ⟨-, -, htier⟩ := (compile_eq_ok_iff h).1 hcompile
        exact ⟨[result], ⟨result, [], hcompile, rfl, rfl⟩, by simp [← htier]⟩
      · rintro ⟨_, ⟨part, _, hcompile, rfl, rfl⟩, rfl⟩
        obtain ⟨-, -, htier⟩ := (compile_eq_ok_iff h).1 hcompile
        rw [hcompile]
        simp [← htier]
    · obtain ⟨hline, hrest⟩ := isCommands_append_feed.1 h
      have hlt : rest.length < n := by
        rw [← hn, List.length_append, List.length_cons]
        omega
      rw [compile_append_feed hline hrest, pieces_append_feed, pieces_of_not_mem hl,
        List.singleton_append]
      simp only [List.forall₂_cons_left_iff, ih rest.length hlt hrest rfl]
      constructor
      · rintro ⟨above, -, habove, ⟨parts, hparts, rfl⟩, rfl⟩
        exact ⟨above :: parts, ⟨above, parts, habove, hparts, rfl⟩, rfl⟩
      · rintro ⟨-, ⟨above, parts, habove, hparts, rfl⟩, rfl⟩
        exact ⟨above, _, habove, ⟨parts, hparts, rfl⟩, rfl⟩

end Compiling

/-- **Commands are compiled line by line.** Two sources with a line feed between them are commands
just when each of them is. Then the whole compiles just when both do, to the statements of the first
and then those of the second; and a source of commands compiles just when each of its lines does by
itself, to the statements of the lines one after another, whatever the other lines are. -/
theorem commands_compositional (a b : List Char) :
    (IsCommands (a ++ '\n' :: b) ↔ IsCommands a ∧ IsCommands b) ∧
      (IsCommands a → IsCommands b → ∀ result, compile (a ++ '\n' :: b) = .ok result ↔
        ∃ above below, compile a = .ok above ∧ compile b = .ok below ∧
          result = ⟨.simpleCommand, above.program ++ below.program⟩) ∧
      (IsCommands a → ∀ result, compile a = .ok result ↔
        ∃ parts, List.Forall₂ (fun l part => compile l = .ok part) (pieces a) parts ∧
          result = ⟨.simpleCommand, parts.flatMap Compiled.program⟩) :=
  ⟨isCommands_append_feed, fun ha hb _ => compile_append_feed ha hb,
    fun ha _ => compile_iff_lines ha⟩

/-- Two lines of commands, the first of them with a comment and the return of its line end. -/
theorem commands_compositional_untidy :
    IsCommands "create a.txt// =>\r".toList ∧ IsCommands "delete b".toList ∧
      compile ("create a.txt// =>\r".toList ++ '\n' :: "delete b".toList) =
        .ok ⟨.simpleCommand, [.expr (.callNamed "createFile" [.str "a.txt"]),
          .expr (.callNamed "deleteDirectory" [.str "b"])]⟩ := by
  have hcreate : IsCommands "create a.txt// =>\r".toList := by decide +kernel
  have hdelete : IsCommands "delete b".toList := by decide +kernel
  have habove : codeLines "create a.txt// =>\r".toList = ["create a.txt".toList] := by
    decide +kernel
  have hbelow : codeLines "delete b".toList = ["delete b".toList] := by decide +kernel
  have hfirst : splitWord (trim "create a.txt".toList) = ("create".toList, "a.txt".toList) := by
    decide +kernel
  have hsecond : splitWord (trim "delete b".toList) = ("delete".toList, "b".toList) := by
    decide +kernel
  obtain ⟨-, hseam, -⟩ := commands_compositional "create a.txt// =>\r".toList "delete b".toList
  refine ⟨hcreate, hdelete, (hseam hcreate hdelete _).2 ⟨_, _, compile_line hcreate habove ?_ rfl,
    compile_line hdelete hbelow ?_ rfl, rfl⟩⟩
  · rw [commandOf, hfirst]
    rfl
  · rw [commandOf, hsecond]
    rfl

end ScriptedNotes.Script
