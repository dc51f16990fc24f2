import Mathlib.Logic.Function.Iterate
import Mathlib.Order.Basic
import Mathlib.Tactic.Common
import ScriptedNotes.Proofs.Run.Discipline
import ScriptedNotes.Proofs.Run.Correspondence

/-!
The depth of calls. Whatever is evaluated, and however it ends, as many calls are open behind it as
before it, and on the way there never were more than the limit allows (`Balanced`). At the limit a
call of a script function fails and leaves the state as it is; so there is as much room for calls
behind a failure that was caught as there was before it (`call_depth_exact`).
-/

namespace ScriptedNotes.Run

open Script (Compiled Expr Program Stmt)

variable {σ α β : Type} {m m' m₁ m₂ : Machine σ}

/-- As many calls are open in the second state as in the first, and on the way from one to the other
the limit was not passed. -/
structure Returns (m m' : Machine σ) : Prop where
  depth : m'.depth = m.depth
  deepest_mono : m.deepest ≤ m'.deepest
  deepest_le : m'.deepest ≤ max m.deepest maxDepth

namespace Returns

lemma refl (m : Machine σ) : Returns m m :=
  ⟨rfl, Nat.le_refl _, Nat.le_max_left _ _⟩

lemma trans (h : Returns m m₁) (h' : Returns m₁ m₂) : Returns m m₂ where
  depth := h'.depth.trans h.depth
  deepest_mono := Nat.le_trans h.deepest_mono h'.deepest_mono
  deepest_le := by
    have hfirst := h.deepest_le
    have hsecond := h'.deepest_le
    omega

lemma of_same (hdepth : m'.depth = m.depth) (hdeepest : m'.deepest = m.deepest) : Returns m m' :=
  ⟨hdepth, Nat.le_of_eq hdeepest.symm, Nat.le_trans (Nat.le_of_eq hdeepest) (Nat.le_max_left _ _)⟩

/-- A call comes back from the level below. -/
lemma of_deeper (hroom : m.depth < maxDepth) (h : Returns m.deeper m') :
    Returns m m'.shallower where
  depth := by
    show m'.depth - 1 = m.depth
    rw [h.depth]
    rfl
  deepest_mono := Nat.le_trans (Nat.le_max_left _ _) h.deepest_mono
  deepest_le := by
    have hdeepest := h.deepest_le
    show m'.deepest ≤ max m.deepest maxDepth
    have hentered : m.deeper.deepest = max m.deepest (m.depth + 1) := rfl
    omega

end Returns

namespace Exec

/-- The computation comes back to the depth at which it began, however it ends. -/
def Balanced (x : Exec σ α) : Prop :=
  ∀ m, Returns m (x m).2

/-! ### The rules -/

/-- A step that opens no call. -/
lemma balanced_of_same {x : Exec σ α}
    (h : ∀ m, (x m).2.depth = m.depth ∧ (x m).2.deepest = m.deepest) : Balanced x :=
  fun m => .of_same (h m).1 (h m).2

lemma Balanced.bind {x : Exec σ α} {k : α → Exec σ β} (hx : Balanced x)
    (hk : ∀ a, Balanced (k a)) : Balanced (x >>= k) := by
  intro m
  have hfirst := hx m
  show Returns m (Exec.bind x k m).2
  unfold Exec.bind
  rcases hr : x m with ⟨r, m'⟩
  rw [hr] at hfirst
  cases r with
  | value a => exact hfirst.trans (hk a m')
  | error e => exact hfirst
  | unfinished => exact hfirst

lemma Balanced.attempt {x : Exec σ α} (hx : Balanced x) : Balanced (Exec.attempt x) := by
  intro m
  have hbody := hx m
  unfold Exec.attempt
  rcases hr : x m with ⟨r, m'⟩
  rw [hr] at hbody
  cases r <;> exact hbody

lemma Balanced.nested {x : Exec σ α} (hx : Balanced x) : Balanced (Exec.nested x) := by
  intro m
  by_cases hroom : m.depth < maxDepth
  · rw [nested_of_lt hroom]
    exact (hx m.deeper).of_deeper hroom
  · rw [nested_of_le (Nat.not_lt.1 hroom)]
    exact .refl m

/-- Calls inside calls, as many as there is room for. -/
theorem nested_iterate {k : Nat} (hroom : m.depth + k ≤ maxDepth) (x : Exec σ α) :
    (Exec.nested^[k] x) m =
      Prod.map id (Machine.shallower^[k]) (x (Machine.deeper^[k] m)) := by
  -- From the outermost call inwards: each begins where the one around it has gone deeper.
  induction k generalizing m with
  | zero => rfl
  | succ k ih =>
    have hbelow : m.deeper.depth + k ≤ maxDepth := by
      show m.depth + 1 + k ≤ maxDepth
      omega
    rw [Function.iterate_succ_apply', nested_of_lt (by omega), ih hbelow,
      Function.iterate_succ_apply, Function.iterate_succ']
    rfl

lemma depth_iterate_deeper (k : Nat) (m : Machine σ) :
    (Machine.deeper^[k] m).depth = m.depth + k := by
  induction k with
  | zero => rfl
  | succ k ih =>
    rw [Function.iterate_succ_apply']
    show (Machine.deeper^[k] m).depth + 1 = m.depth + (k + 1)
    rw [ih, Nat.add_assoc]

/-- Where the last of them reaches the limit, a call inside it fails. -/
lemma nested_iterate_succ {k : Nat} (hfull : m.depth + k = maxDepth) (x : Exec σ α) :
    (Exec.nested^[k + 1] x) m =
      (.error (.thrown "Maximum call stack size exceeded"),
        Machine.shallower^[k] (Machine.deeper^[k] m)) := by
  have hlimit : maxDepth ≤ (Machine.deeper^[k] m).depth := by
    rw [depth_iterate_deeper]
    exact Nat.le_of_eq hfull.symm
  rw [Function.iterate_succ_apply, nested_iterate (Nat.le_of_eq hfull), nested_of_le hlimit]
  rfl

end Exec

open Exec

/-! ### The evaluator -/

/-- Balanced computations, as a correspondence: of a run with itself, whatever its frames and
values. -/
def balancing (σ : Type) : Correspondence σ where
  rename := id
  rel _ x _ := x.Balanced

lemma lawful_balancing (S : Backend σ) : (balancing σ).Lawful S where
  pure _ _ := Returns.refl
  bind hx hk := Balanced.bind hx hk
  thrown _ _ := Returns.refl
  failed _ _ := Returns.refl
  unfinished _ := Returns.refl
  attempt hx := Balanced.attempt hx
  nested hx := Balanced.nested hx
  endCall flow := by
    refine balanced_of_same fun m => ?_
    unfold endCall
    cases flow.isStray <;> exact ⟨rfl, rfl⟩
  lookup _ _ := Returns.refl
  task name hnone hsome := by
    refine Balanced.bind Returns.refl fun task? => ?_
    cases task? with
    | none => exact hnone
    | some task => exact hsome task.description task.handler _ task.handler.renamed_id
  newFrame _ := balanced_of_same fun _ => ⟨rfl, rfl⟩
  declare _ _ _ _ := balanced_of_same fun _ => ⟨rfl, rfl⟩
  assign frame name v := by
    refine balanced_of_same fun m => ?_
    unfold assign
    split <;> exact ⟨rfl, rfl⟩
  register _ _ _ _ := balanced_of_same fun _ => ⟨rfl, rfl⟩
  registerHost _ _ _ _ _ := balanced_of_same fun _ => ⟨rfl, rfl⟩
  listTasks := Returns.refl
  emit _ _ := balanced_of_same fun _ => ⟨rfl, rfl⟩
  clear := balanced_of_same fun _ => ⟨rfl, rfl⟩
  sleep _ := balanced_of_same fun _ => ⟨rfl, rfl⟩
  change c := Balanced.bind (balanced_of_same fun _ => ⟨rfl, rfl⟩) fun reply => by
    cases reply <;> exact Returns.refl
  read path := Balanced.bind (balanced_of_same fun _ => ⟨rfl, rfl⟩) fun reply => by
    cases reply <;> exact Returns.refl

/-- What a call of a script function does one level deeper. -/
def callBody (S : Backend σ) (fuel : Nat) (code : Script.Function) (frame : FrameId)
    (args : List Value) : Exec σ Value := do
  let inner ← newFrame frame
  bindParams inner code.params args
  endCall (← execBlock S fuel inner code.body)

lemma call_function_eq (S : Backend σ) (fuel : Nat) (code : Script.Function) (frame : FrameId)
    (args : List Value) :
    call S (fuel + 1) (.function code frame) args = nested (callBody S fuel code frame args) := by
  rw [call]
  rfl

lemma balanced_runScript (S : Backend σ) (fuel : Nat) (script : Compiled) :
    Balanced (runScript S fuel script) := by
  have hblock := (Correspondence.evaluatorCorresponds (lawful_balancing S) fuel).block
  have hprogram : Balanced (runProgram S fuel script.program) := by
    intro m
    obtain ⟨hdepth, hmono, hle⟩ :=
      hblock m.heap.size script.program { m with heap := m.heap.push {} }
    exact ⟨hdepth, hmono, hle⟩
  refine hprogram.attempt.bind fun r => ?_
  cases r with
  | ok flow => exact Returns.refl
  | error e =>
    by_cases hadvanced : script.tier = .advanced
    · simp only [if_pos hadvanced]
      exact balanced_of_same fun _ => ⟨rfl, rfl⟩
    · simp only [if_neg hadvanced]
      exact balanced_of_same fun _ => ⟨rfl, rfl⟩

/-- **The depth of calls is kept exactly.** For every store and state: whatever is evaluated, and
however it ends, as many calls are open behind it as before it, and the limit is not passed on the
way. At the limit a call of a script function fails without a step of its body, below it the body
runs one level deeper; the same holds when a task of a script is invoked. Hence calls inside calls
reach the limit again in every state that is as deep as this one, and fail only beyond it. -/
theorem call_depth_exact (S : Backend σ) (fuel : Nat) (m : Machine σ) :
    ((∀ frame e, Returns m (eval S fuel frame e m).2) ∧
      (∀ f args, Returns m (call S fuel f args m).2) ∧
      (∀ name args, Returns m (invoke S fuel name args m).2) ∧
      (∀ frame stmts, Returns m (execBlock S fuel frame stmts m).2) ∧
      (∀ frame s, Returns m (exec S fuel frame s m).2) ∧
      ∀ script, Returns m (runScript S fuel script m).2) ∧
    (∀ code frame args, call S (fuel + 1) (.function code frame) args m =
      if maxDepth ≤ m.depth then (.error (.thrown "Maximum call stack size exceeded"), m)
      else Prod.map id Machine.shallower (callBody S fuel code frame args m.deeper)) ∧
    (∀ name description code frame, Keyed.get? name m.tasks =
      some ⟨description, .script code frame⟩ → ∀ args, invoke S (fuel + 1) name args m =
        call S fuel (.function code frame) args m) ∧
    ∀ m' : Machine σ, Returns m m' → ∀ (k : Nat) (x : Exec σ Value),
      (m.depth + k ≤ maxDepth → (Exec.nested^[k] x) m' =
        Prod.map id (Machine.shallower^[k]) (x (Machine.deeper^[k] m'))) ∧
      (m.depth + k = maxDepth → (Exec.nested^[k + 1] x) m' =
        (.error (.thrown "Maximum call stack size exceeded"),
          Machine.shallower^[k] (Machine.deeper^[k] m'))) := by
  have hall := Correspondence.evaluatorCorresponds (lawful_balancing S) fuel
  refine ⟨⟨fun frame e => hall.eval frame e m, fun f args => hall.call f args m,
    fun name args => hall.invoke name args m, fun frame stmts => hall.block frame stmts m,
    fun frame s => hall.exec frame s m, fun script => balanced_runScript S fuel script m⟩,
    fun code frame args => ?_, fun name description code frame htask args => ?_,
    fun m' hreturns k x => ?_⟩
  · rw [call_function_eq]
    rfl
  · have htaskOf : ∀ k : Option Task → Exec σ Value,
        (taskOf? name >>= k) m = k (Keyed.get? name m.tasks) m := fun _ => rfl
    rw [invoke_eq, htaskOf, htask]
  · rw [← hreturns.depth]
    exact ⟨fun hroom => nested_iterate hroom x, fun hfull => nested_iterate_succ hfull x⟩

/-- Catches the failure of a function that calls itself, and tells of it. -/
def runaway : Program :=
  [.function (.mk (some "f") [] [.expr (.callNamed "f" [])]),
    .try [.expr (.callNamed "f" [])]
      [.expr (.callNamed "print" [.member (.ident "error") "message"])]]

/-- A state with an empty frame and a task that calls a function without a body. -/
def started : Machine Unit where
  heap := #[{}]
  tasks := [("idle", ⟨"", .script (.mk none [] []) 0⟩)]
  store := ()
  context := "a"

/-- The state behind the failure that was caught. -/
def recovered : Machine Unit :=
  (execBlock .willing 200 0 runaway started).2

theorem call_depth_exact_runaway :
    recovered.terminal = ⟨#[⟨.info, "Maximum call stack size exceeded"⟩]⟩ ∧
      recovered.deepest = maxDepth ∧ recovered.depth = 0 ∧
      (Exec.nested^[maxDepth] (pure .nil : Exec Unit Value)) recovered =
        (.value .nil, Machine.shallower^[maxDepth] (Machine.deeper^[maxDepth] recovered)) ∧
      invoke .willing 201 "idle" [] started =
        call .willing 200 (.function (.mk none [] []) 0) [] started := by
  obtain ⟨⟨-, -, -, hblock, -⟩, -, htask, hroom⟩ := call_depth_exact .willing 200 started
  have hreturns : Returns started recovered := hblock 0 runaway
  refine ⟨by decide +kernel, by decide +kernel, hreturns.depth, ?_, htask "idle" "" _ _ rfl []⟩
  exact (hroom recovered hreturns maxDepth (pure .nil)).1 (by decide)

end ScriptedNotes.Run
