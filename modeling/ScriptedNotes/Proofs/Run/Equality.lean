import Mathlib.Data.List.Forall2
import Mathlib.Tactic.Common
import ScriptedNotes.Proofs.Run.Closures

/-!
Equality of values. Two values are equal when they are of one kind and their parts are equal, in
order and under the same names (`equal_iff`), and a comparison comes down to numbers, texts and
functions in the end. So equality is symmetric and transitive because that of 64-bit floats is. It
is reflexive where nothing stands, at any depth, that is not equal to itself: no number that is none
and no function of a script (`looseEq_partialEquivalence`).
-/

namespace ScriptedNotes.Run

open Script (Function)

/-! ### Lists member by member -/

section Lists

variable {α : Type} {R : α → α → Prop} {xs ys zs : List α}

lemma forall₂_symm (hR : ∀ x ∈ xs, ∀ y, R x y → R y x) (h : List.Forall₂ R xs ys) :
    List.Forall₂ R ys xs := by
  induction h with
  | nil => exact .nil
  | cons hxy _ ih =>
    obtain ⟨hx, hxs⟩ := List.forall_mem_cons.1 hR
    exact .cons (hx _ hxy) (ih hxs)

lemma forall₂_trans (hR : ∀ x ∈ xs, ∀ y z, R x y → R y z → R x z) (h : List.Forall₂ R xs ys)
    (h' : List.Forall₂ R ys zs) : List.Forall₂ R xs zs := by
  induction h generalizing zs with
  | nil => exact h'
  | cons hxy _ ih =>
    obtain ⟨hx, hxs⟩ := List.forall_mem_cons.1 hR
    obtain ⟨z, zs, hyz, hyzs, rfl⟩ := List.forall₂_cons_left_iff.1 h'
    exact .cons (hx _ _ hxy hyz) (ih hxs hyzs)

end Lists

/-! ### Numbers -/

section Numbers

open Float.Model (UnpackedFloat)

/-- Two floats, taken apart, are the same number. Zero is one number, whatever its sign. -/
inductive SameNumber : UnpackedFloat → UnpackedFloat → Prop where
  | zero (s t : UnpackedFloat.Sign) : SameNumber (.zero s) (.zero t)
  | infinity (s : UnpackedFloat.Sign) : SameNumber (.infinity s) (.infinity s)
  | finite (s : UnpackedFloat.Sign) (m : Nat) (e : Int) (hm : 0 < m) :
      SameNumber (.finite s m e hm) (.finite s m e hm)

variable {a b c : UnpackedFloat} {x y z : Float}

lemma SameNumber.symm (h : SameNumber a b) : SameNumber b a := by
  cases h <;> constructor

lemma SameNumber.trans (h : SameNumber a b) (h' : SameNumber b c) : SameNumber a c := by
  cases h with
  | zero s t => cases h' with | zero t u => exact .zero s u
  | infinity | finite => exact h'

lemma sameNumber_self_iff : SameNumber a a ↔ a.isNaN = false := by
  cases a with
  | notANumber => exact iff_of_false nofun nofun
  | zero s => exact iff_of_true (.zero s s) rfl
  | infinity s => exact iff_of_true (.infinity s) rfl
  | finite s m e hm => exact iff_of_true (.finite s m e hm) rfl

/-- Exponents and mantissas are equal where comparing one after the other says so. -/
lemma eq_of_compare_then {e f : Int} {m n : Nat} (h : (compare e f).then (compare m n) = .eq) :
    e = f ∧ m = n := by
  simpa using h

lemma sameNumber_of_compare (h : a.compare b = some .eq) : SameNumber a b := by
  cases a with
  | notANumber => cases h
  | infinity s =>
    cases b with
    | infinity t => cases s <;> cases t <;> cases h <;> exact .infinity _
    | notANumber | zero | finite => cases s <;> cases h
  | zero s =>
    cases b with
    | zero t => exact .zero s t
    | notANumber => cases h
    | infinity t | finite t => cases t <;> cases h
  | finite s m e hm =>
    cases b with
    | finite t n f hn =>
      cases s <;> cases t
      case negative.negative =>
        obtain ⟨rfl, rfl⟩ := eq_of_compare_then (Ordering.swap_inj.1 (Option.some.inj h))
        exact .finite _ _ _ hm
      case positive.positive =>
        obtain ⟨rfl, rfl⟩ := eq_of_compare_then (Option.some.inj h)
        exact .finite _ _ _ hm
      -- two numbers of opposite signs
      all_goals cases h
    | infinity t => cases t <;> cases h
    | notANumber | zero => cases s <;> cases h

lemma compare_of_sameNumber (h : SameNumber a b) : a.compare b = some .eq := by
  cases h with
  | zero s t => rfl
  | infinity s => cases s <;> rfl
  | finite s m e hm =>
    have hparts : (compare e e).then (compare m m) = .eq := by simp
    cases s with
    | positive => exact congrArg some hparts
    | negative => exact congrArg (some ·.swap) hparts

lemma number_beq_iff : (x == y) = true ↔ SameNumber x.toModel.unpack y.toModel.unpack := by
  refine Iff.trans ?_ ⟨sameNumber_of_compare, compare_of_sameNumber⟩
  exact beq_iff_eq (a := x.toModel.unpack.compare y.toModel.unpack)

lemma number_beq_symm (h : (x == y) = true) : (y == x) = true :=
  number_beq_iff.2 (number_beq_iff.1 h).symm

lemma number_beq_trans (h : (x == y) = true) (h' : (y == z) = true) : (x == z) = true :=
  number_beq_iff.2 ((number_beq_iff.1 h).trans (number_beq_iff.1 h'))

lemma number_beq_self_iff : (x == x) = true ↔ x.isNaN = false :=
  number_beq_iff.trans sameNumber_self_iff

end Numbers

namespace Value

variable {R : Value → Value → Prop} {a b c v : Value}

/-! ### One step of a comparison -/

/-- The values are equal for a script. -/
abbrev Equal (a b : Value) : Prop :=
  a.looseEq b = true

/-- Fields of one name, with related values. -/
def SameField (R : Value → Value → Prop) (p q : String × Value) : Prop :=
  p.1 = q.1 ∧ R p.2 q.2

/-- Values of one kind, with related parts. -/
inductive Matches (R : Value → Value → Prop) : Value → Value → Prop where
  | nil : Matches R .nil .nil
  | bool (b : Bool) : Matches R (.bool b) (.bool b)
  | number {x y : Float} (h : (x == y) = true) : Matches R (.number x) (.number y)
  | str (s : String) : Matches R (.str s) (.str s)
  | array {xs ys : List Value} (h : List.Forall₂ R xs ys) : Matches R (.array xs) (.array ys)
  | object {xs ys : List (String × Value)} (h : List.Forall₂ (SameField R) xs ys) :
      Matches R (.object xs) (.object ys)
  | builtin (b : Builtin) : Matches R (.builtin b) (.builtin b)

lemma looseEqItems_iff {xs ys : List Value} :
    looseEqItems xs ys = true ↔ List.Forall₂ Equal xs ys := by
  induction xs generalizing ys with
  | nil => cases ys <;> simp [looseEqItems]
  | cons x xs ih => cases ys <;> simp [looseEqItems, ih]

lemma looseEqFields_iff {xs ys : List (String × Value)} :
    looseEqFields xs ys = true ↔ List.Forall₂ (SameField Equal) xs ys := by
  induction xs generalizing ys with
  | nil => cases ys <;> simp [looseEqFields]
  | cons x xs ih => cases ys <;> simp [looseEqFields, ih, SameField]

/-- **Equal values are of one kind and have equal parts.** -/
theorem equal_iff : Equal a b ↔ Matches Equal a b := by
  constructor
  · intro h
    unfold Equal looseEq at h
    split at h
    · exact .nil
    · exact eq_of_beq h ▸ .bool _
    · exact .number h
    · exact eq_of_beq h ▸ .str _
    · exact .array (looseEqItems_iff.1 h)
    · exact .object (looseEqFields_iff.1 h)
    · exact eq_of_beq h ▸ .builtin _
    · cases h
  · intro h
    cases h with
    | nil => rfl
    | bool b => exact beq_self_eq_true b
    | number h => exact h
    | str s => exact beq_self_eq_true s
    | array h => exact looseEqItems_iff.2 h
    | object h => exact looseEqFields_iff.2 h
    | builtin b => exact beq_self_eq_true b

/-! ### Symmetry and transitivity -/

lemma Matches.symm (h : Matches R a b) (hR : ∀ v ∈ a.parts, ∀ w, R v w → R w v) :
    Matches R b a := by
  cases h with
  | nil => exact .nil
  | bool b => exact .bool b
  | number h => exact .number (number_beq_symm h)
  | str s => exact .str s
  | array h => exact .array (forall₂_symm hR h)
  | object h =>
    refine .object (forall₂_symm ?_ h)
    rintro p hp q ⟨hname, hvalue⟩
    exact ⟨hname.symm, hR p.2 (List.mem_map_of_mem hp) q.2 hvalue⟩
  | builtin b => exact .builtin b

lemma Matches.trans (h : Matches R a b) (h' : Matches R b c)
    (hR : ∀ v ∈ a.parts, ∀ w u, R v w → R w u → R v u) : Matches R a c := by
  cases h with
  | nil | bool | str | builtin => exact h'
  | number h =>
    cases h' with
    | number h' => exact .number (number_beq_trans h h')
  | array h =>
    cases h' with
    | array h' => exact .array (forall₂_trans hR h h')
  | object h =>
    cases h' with
    | object h' =>
      refine .object (forall₂_trans ?_ h h')
      rintro p hp q r ⟨hname, hvalue⟩ ⟨hname', hvalue'⟩
      exact ⟨hname.trans hname', hR p.2 (List.mem_map_of_mem hp) q.2 r.2 hvalue hvalue'⟩

theorem Equal.symm (h : Equal a b) : Equal b a := by
  -- the laws are asked of the parts of the left value only, so the induction is on that one alone
  induction a using ind generalizing b with
  | _ a ih => exact equal_iff.2 ((equal_iff.1 h).symm fun v hv _ => ih v hv)

theorem Equal.trans (h : Equal a b) (h' : Equal b c) : Equal a c := by
  induction a using ind generalizing b c with
  | _ a ih => exact equal_iff.2 ((equal_iff.1 h).trans (equal_iff.1 h') fun v hv _ _ => ih v hv)

/-! ### Values that are equal to themselves -/

/-- The value stands in another one, at any depth. -/
inductive Within (v : Value) : Value → Prop where
  | here : Within v v
  | part {w a : Value} (hw : w ∈ a.parts) (h : Within v w) : Within v a

/-- The values that are not equal to themselves whatever they are made of. -/
inductive Unequal : Value → Prop where
  | nan {x : Float} (h : x.isNaN = true) : Unequal (.number x)
  | function (code : Function) (frame : FrameId) : Unequal (.function code frame)

lemma forall_within_iff {P : Value → Prop} :
    (∀ v, Within v a → P v) ↔ P a ∧ ∀ w ∈ a.parts, ∀ v, Within v w → P v := by
  constructor
  · exact fun h => ⟨h a .here, fun w hw v hv => h v (.part hw hv)⟩
  · rintro ⟨ha, hparts⟩ v hv
    cases hv with
    | here => exact ha
    | part hw hv => exact hparts _ hw v hv

lemma equal_self_step : Equal a a ↔ ¬ Unequal a ∧ ∀ w ∈ a.parts, Equal w w := by
  cases a with
  | nil => exact iff_of_true rfl ⟨nofun, nofun⟩
  | bool b => exact iff_of_true (equal_iff.2 (.bool b)) ⟨nofun, nofun⟩
  | number x =>
    have hx : Equal (.number x) (.number x) ↔ ¬ x.isNaN = true :=
      number_beq_self_iff.trans Bool.eq_false_iff
    rw [hx]
    refine ⟨fun h => ⟨?_, nofun⟩, fun h hnan => h.1 (.nan hnan)⟩
    rintro ⟨hnan⟩
    exact h hnan
  | str s => exact iff_of_true (equal_iff.2 (.str s)) ⟨nofun, nofun⟩
  | array items =>
    have hitems : Equal (.array items) (.array items) ↔ ∀ w ∈ items, Equal w w :=
      looseEqItems_iff.trans List.forall₂_same
    rw [hitems]
    exact (and_iff_right nofun).symm
  | object fields =>
    have hfields : Equal (.object fields) (.object fields) ↔ ∀ p ∈ fields, Equal p.2 p.2 :=
      looseEqFields_iff.trans (List.forall₂_same.trans
        (forall₂_congr fun p _ => and_iff_right rfl))
    rw [hfields, parts, List.forall_mem_map]
    exact (and_iff_right nofun).symm
  | function code frame => exact iff_of_false nofun fun h => h.1 (.function code frame)
  | builtin b => exact iff_of_true (equal_iff.2 (.builtin b)) ⟨nofun, nofun⟩

theorem equal_self_iff : Equal a a ↔ ∀ v, Within v a → ¬ Unequal v := by
  induction a using ind with
  | _ a ih =>
    rw [equal_self_step, forall_within_iff]
    exact and_congr_right fun _ => forall₂_congr ih

/-! ### What equal values share -/

lemma Equal.typeName_eq (h : Equal a b) : a.typeName = b.typeName := by
  cases equal_iff.1 h <;> rfl

/-- Zero and the zero below it are equal, and neither holds as a condition. -/
lemma Equal.isTruthy_eq (h : Equal a b) : a.isTruthy = b.isTruthy := by
  cases equal_iff.1 h with
  | @number x y hxy =>
    have hyx := number_beq_symm hxy
    have hx : x.isNaN = false := number_beq_self_iff.1 (number_beq_trans hxy hyx)
    have hy : y.isNaN = false := number_beq_self_iff.1 (number_beq_trans hyx hxy)
    have hzero : (x == 0) = (y == 0) :=
      Bool.eq_iff_iff.2 ⟨number_beq_trans hyx, number_beq_trans hxy⟩
    rw [isTruthy, isTruthy, bne, bne, hzero, hx, hy]
  | _ => rfl

/-- **Equality of a script is a partial equivalence.** It is symmetric and transitive, a value is
equal to itself just when neither a number that is none nor a function of a script stands in it, and
equal values have one type and hold alike as conditions. -/
theorem looseEq_partialEquivalence (a b c : Value) :
    a.looseEq b = b.looseEq a ∧
    (a.looseEq b = true → b.looseEq c = true → a.looseEq c = true) ∧
    (a.looseEq a = true ↔ (∀ x, Within (.number x) a → x.isNaN = false) ∧
      ∀ code frame, ¬ Within (.function code frame) a) ∧
    (a.looseEq b = true → a.typeName = b.typeName ∧ a.isTruthy = b.isTruthy) := by
  refine ⟨Bool.eq_iff_iff.2 ⟨Equal.symm, Equal.symm⟩, Equal.trans, ?_,
    fun h => ⟨Equal.typeName_eq h, Equal.isTruthy_eq h⟩⟩
  refine equal_self_iff.trans ⟨?_, ?_⟩
  · exact fun h => ⟨fun x hx => Bool.eq_false_iff.2 fun hnan => h _ hx (.nan hnan),
      fun code frame hf => h _ hf (.function code frame)⟩
  · rintro ⟨hnumbers, hfunctions⟩ v hv hunequal
    cases hunequal with
    | nan hnan =>
      rw [hnumbers _ hv] at hnan
      cases hnan
    | function code frame => exact hfunctions code frame hv

/-- A list with a number in it and a record below. -/
def listing (x : Float) : Value :=
  .array [.number x, .object [("name", .str "draft"), ("size", .array [.number x])]]

theorem looseEq_partialEquivalence_listing :
    (listing 0).looseEq (listing (-0)) = true ∧ (listing (-0)).looseEq (listing 0) = true ∧
      (listing 0).looseEq (listing 0) = true ∧
      (listing 0).isTruthy = (listing (-0)).isTruthy ∧
      (listing (0 / 0)).looseEq (listing (0 / 0)) = false := by
  have hzero : (listing 0).looseEq (listing (-0)) = true := by decide +kernel
  obtain ⟨hcomm, htrans, -, hshared⟩ :=
    looseEq_partialEquivalence (listing 0) (listing (-0)) (listing 0)
  have hback : (listing (-0)).looseEq (listing 0) = true := hcomm ▸ hzero
  obtain ⟨-, -, hself, -⟩ := looseEq_partialEquivalence (listing (0 / 0)) .nil .nil
  have hwithin : Within (.number (0 / 0)) (listing (0 / 0)) :=
    .part List.mem_cons_self .here
  have hnan : (0 / 0 : Float).isNaN = true := by decide +kernel
  refine ⟨hzero, hback, htrans hzero hback, (hshared hzero).2, Bool.eq_false_iff.2 fun h => ?_⟩
  rw [(hself.1 h).1 _ hwithin] at hnan
  cases hnan

end Value

end ScriptedNotes.Run
