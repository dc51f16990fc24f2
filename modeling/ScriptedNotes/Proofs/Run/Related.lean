import Mathlib.Tactic.Common
import ScriptedNotes.Proofs.Run.Correspondence

/-!
Runs that begin in related states. Where each of two computations is followed from a state of its
own, they belong together if they end alike and leave related states again (`between`). This is kept
by all the ways in which computations are put together, whatever the relation; what it says of
single steps is for each relation to show.
-/

namespace ScriptedNotes.Run

/-- How a computation ends, with another value. -/
def Result.map {α β : Type} (f : α → β) : Result α → Result β
  | .value a => .value (f a)
  | .error e => .error e
  | .unfinished => .unfinished

variable {σ α β : Type}

namespace Correspondence

/-- The correspondence of runs that begin in related states, end alike and leave related states. -/
def between (rename : FrameId → FrameId) (Q : Machine σ → Machine σ → Prop) : Correspondence σ where
  rename := rename
  rel f x y := ∀ m n, Q m n → (y n).1 = (x m).1.map f ∧ Q (x m).2 (y n).2

/-- A relation of states that are equally deep, however deep that is. -/
structure Level (Q : Machine σ → Machine σ → Prop) : Prop where
  depth : ∀ {m n}, Q m n → n.depth = m.depth
  deepest : ∀ {m n}, Q m n → n.deepest = m.deepest
  atDepth : ∀ {m n}, Q m n → ∀ depth, Q { m with depth := depth } { n with depth := depth }
  toDeepest : ∀ {m n}, Q m n → ∀ deepest,
    Q { m with deepest := deepest } { n with deepest := deepest }

variable {rename : FrameId → FrameId} {Q : Machine σ → Machine σ → Prop}

lemma between_bind {γ δ : Type} {f : α → β} {g : γ → δ} {x : Exec σ α} {y : Exec σ β}
    {k : α → Exec σ γ} {l : β → Exec σ δ} (hx : (between rename Q).rel f x y)
    (hk : ∀ a, (between rename Q).rel g (k a) (l (f a))) :
    (between rename Q).rel g (x >>= k) (y >>= l) := by
  intro m n h
  obtain ⟨hend, hafter⟩ := hx m n h
  show (Exec.bind y l n).1 = (Exec.bind x k m).1.map g ∧
    Q (Exec.bind x k m).2 (Exec.bind y l n).2
  unfold Exec.bind
  rcases hr : x m with ⟨r, m'⟩
  rcases hr' : y n with ⟨r', n'⟩
  rw [hr, hr'] at hend hafter
  obtain rfl := hend
  cases r with
  | value a => exact hk a m' n' hafter
  | error e => exact ⟨rfl, hafter⟩
  | unfinished => exact ⟨rfl, hafter⟩

lemma between_attempt {f : α → β} {x : Exec σ α} {y : Exec σ β}
    (hx : (between rename Q).rel f x y) :
    (between rename Q).rel (Except.map f) x.attempt y.attempt := by
  intro m n h
  obtain ⟨hend, hafter⟩ := hx m n h
  unfold Exec.attempt
  rcases hr : x m with ⟨r, m'⟩
  rcases hr' : y n with ⟨r', n'⟩
  rw [hr, hr'] at hend hafter
  obtain rfl := hend
  cases r with
  | value a => exact ⟨rfl, hafter⟩
  | error e => exact ⟨rfl, hafter⟩
  | unfinished => exact ⟨rfl, hafter⟩

lemma between_nested (hQ : Level Q) {f : α → β} {x : Exec σ α} {y : Exec σ β}
    (hx : (between rename Q).rel f x y) :
    (between rename Q).rel f (Exec.nested x) (Exec.nested y) := by
  intro m n h
  unfold Exec.nested
  rw [hQ.depth h, hQ.deepest h]
  by_cases hdeep : maxDepth ≤ m.depth
  · rw [if_pos hdeep, if_pos hdeep]
    exact ⟨rfl, h⟩
  · rw [if_neg hdeep, if_neg hdeep]
    have hinside := hQ.toDeepest (hQ.atDepth h (m.depth + 1)) (max m.deepest (m.depth + 1))
    obtain ⟨hend, hafter⟩ := hx _ _ hinside
    refine ⟨hend, ?_⟩
    dsimp only at hafter ⊢
    rw [hQ.depth hafter]
    exact hQ.atDepth hafter _

end Correspondence

end ScriptedNotes.Run
