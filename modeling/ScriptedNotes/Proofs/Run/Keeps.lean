import Mathlib.Tactic.Common
import ScriptedNotes.Proofs.Run.Halting

/-!
Invariants of computations. `Keeps I x Q` says that `x` leads from a state with `I` to a state with
`I` again, however it ends, and that a value it ends with satisfies `Q`. This is what a discipline
asks that says nothing but what holds of every state (`keeps_iff`), so there is a rule for each way
in which the evaluator puts computations together, and an invariant of whole runs needs a look at
single steps only.
-/

namespace ScriptedNotes.Run.Exec

open Discipline

variable {σ α β : Type} {I : Machine σ → Prop} {P Q : α → Prop} {R : β → Prop}

/-- The computation keeps the invariant, and its values satisfy the property. -/
def Keeps (I : Machine σ → Prop) (x : Exec σ α) (Q : α → Prop) : Prop :=
  ∀ m, I m → I (x m).2 ∧ ∀ a, (x m).1 = .value a → Q a

/-- The discipline of an invariant, where values hold certain closures and all frames are open. -/
def keeping (C : Script.Function → FrameId → Prop) (I : Machine σ → Prop) : Discipline σ where
  Inv := I
  Step _ _ := True
  refl _ := trivial
  trans _ _ _ _ _ := trivial
  allowed _ := C
  later _ P := P = C
  admits _ _ handler := handler.AllClosures C
  sees _ _ := True
  owns _ _ := True
  ending := False

lemma keeps_iff (C : Script.Function → FrameId → Prop) {x : Exec σ α} :
    Keeps I x Q ↔ ∀ m, (keeping C I).Safe m x fun _ => Q := by
  constructor
  · intro h m hm
    obtain ⟨hafter, hvalue⟩ := h m hm
    exact ⟨⟨hm, trivial, hafter⟩, fun he => he.elim, hvalue⟩
  · intro h m hm
    obtain ⟨hlead, -, hvalue⟩ := h m hm
    exact ⟨hlead.after, hvalue⟩

/-- Closures do not matter to the rules below. -/
lemma Keeps.safe {x : Exec σ α} (h : Keeps I x Q) (m : Machine σ) :
    (keeping (fun _ _ => True) I).Safe m x fun _ => Q :=
  (keeps_iff _).1 h m

lemma keeps_of_safe {x : Exec σ α} (h : ∀ m, (keeping (fun _ _ => True) I).Safe m x fun _ => Q) :
    Keeps I x Q :=
  (keeps_iff _).2 h

/-! ### The monad -/

lemma keeps_pure {a : α} (h : Q a) : Keeps I (pure a : Exec σ α) Q :=
  keeps_of_safe fun _ => safe_pure h

theorem Keeps.bind {x : Exec σ α} {f : α → Exec σ β} (hx : Keeps I x P)
    (hf : ∀ a, P a → Keeps I (f a) R) : Keeps I (x >>= f) R :=
  keeps_of_safe fun m => (hx.safe m).bind fun m' a _ ha => (hf a ha).safe m'

lemma Keeps.map {x : Exec σ α} {f : α → β} (hx : Keeps I x P) (hf : ∀ a, P a → R (f a)) :
    Keeps I (f <$> x) R :=
  hx.bind fun a ha => keeps_pure (hf a ha)

lemma keeps_fail (e : Error) : Keeps I (fail e : Exec σ α) Q :=
  keeps_of_safe fun _ => safe_fail e

lemma keeps_throw (message : String) : Keeps I (throw message : Exec σ α) Q :=
  keeps_fail _

lemma keeps_unfinished : Keeps I (unfinished : Exec σ α) Q :=
  keeps_of_safe fun _ => safe_unfinished fun h => h

lemma keeps_ofExcept {r : Except String α} (h : ∀ a, r = .ok a → Q a) :
    Keeps I (ofExcept r : Exec σ α) Q :=
  keeps_of_safe fun _ => safe_ofExcept h

/-- A step that always ends with a value. -/
lemma keeps_step {f : Machine σ → α} {g : Machine σ → Machine σ}
    (h : ∀ m, I m → I (g m) ∧ Q (f m)) : Keeps I (fun m => (.value (f m), g m)) Q :=
  keeps_of_safe fun m => safe_step fun hm => ⟨⟨hm, trivial, (h m hm).1⟩, (h m hm).2⟩

lemma keeps_getTasks {Q : Registry → Prop} (h : ∀ m, I m → Q m.tasks) : Keeps I getTasks Q :=
  keeps_step fun m hm => ⟨hm, h m hm⟩

lemma Keeps.attempt {x : Exec σ α} (h : Keeps I x Q) :
    Keeps I x.attempt fun r => ∀ a, r = .ok a → Q a :=
  keeps_of_safe fun m => (h.safe m).attempt

/-! ### Lists and loops -/

lemma keeps_each {f : α → Exec σ β} (l : List α) (h : ∀ a ∈ l, Keeps I (f a) R) :
    Keeps I (each f l) fun bs => ∀ b ∈ bs, R b :=
  keeps_of_safe fun _ =>
    safe_each (fun _ _ _ _ hb => hb) l fun a ha m' _ => (h a ha).safe m'

lemma keeps_first? {test : α → Exec σ Bool} (l : List α)
    (h : ∀ a ∈ l, Keeps I (test a) fun _ => True) :
    Keeps I (first? test l) fun r => ∀ a, r = some a → a ∈ l :=
  keeps_of_safe fun _ => safe_first? l fun a ha m' _ => (h a ha).safe m'

section Flows

variable {A : Flow → Prop}

lemma keeps_sequence {f : α → Exec σ Flow} (hn : A .normal) (l : List α)
    (h : ∀ a ∈ l, Keeps I (f a) A) : Keeps I (sequence f l) A :=
  keeps_of_safe fun _ => safe_sequence (fun _ => hn) l fun a ha m' _ => (h a ha).safe m'

/-- What a loop makes of the flows of its body. -/
structure Leaves (B A : Flow → Prop) : Prop where
  normal : A .normal
  left : ∀ flow flow', B flow → flow.leavesLoop? = some flow' → A flow'

variable {B : Flow → Prop}

lemma Leaves.anywhere (hBA : Leaves B A) : Discipline.Leaves (fun _ => B) (fun _ => A) where
  normal _ := hBA.normal
  left _ := hBA.left

lemma keeps_forItems {body : α → Exec σ Flow} (hBA : Leaves B A) (l : List α)
    (h : ∀ a ∈ l, Keeps I (body a) B) : Keeps I (forItems body l) A :=
  keeps_of_safe fun _ => safe_forItems hBA.anywhere l fun a ha m' _ => (h a ha).safe m'

lemma keeps_forNumbers {body : Float → Exec σ Flow} {stop : Float} (hBA : Leaves B A)
    (h : ∀ x, Keeps I (body x) B) (fuel : Nat) (x : Float) :
    Keeps I (forNumbers body stop fuel x) A :=
  keeps_of_safe fun _ =>
    safe_forNumbers (fun he => he) hBA.anywhere fuel x fun x m' _ => (h x).safe m'

lemma keeps_whileTrue {condition : Exec σ Bool} {body : Exec σ Flow} (hBA : Leaves B A)
    (hc : Keeps I condition fun _ => True) (h : Keeps I body B) (fuel : Nat) :
    Keeps I (whileTrue condition body fuel) A :=
  keeps_of_safe fun _ =>
    safe_whileTrue (fun he => he) hBA.anywhere fuel (fun m' _ => hc.safe m') fun m' _ => h.safe m'

end Flows

/-! ### Output, the store and the depth of calls -/

/-- Neither output nor the store nor the depth of calls nor the record of unbound names matters to
the invariant. -/
structure Inward (I : Machine σ → Prop) : Prop where
  unbound : ∀ m u, I m → I { m with unbound := u }
  output : ∀ m f g, I m → I (m.mapOutput f g)
  store : ∀ m s j, I m → I { m with store := s, journal := j }
  depth : ∀ m d e, I m → I { m with depth := d, deepest := e }

namespace Inward

lemma emit (hI : Inward I) (kind : LineKind) (text : String) :
    Keeps I (Exec.emit kind text) fun _ => True :=
  keeps_step fun m hm => ⟨hI.output m _ _ hm, trivial⟩

lemma clear (hI : Inward I) : Keeps I Exec.clear fun _ => True :=
  keeps_step fun m hm => ⟨hI.output m _ _ hm, trivial⟩

lemma record (hI : Inward I) (e : Event) : Keeps I (Exec.record e) fun _ => True :=
  keeps_step fun m hm => ⟨hI.output m _ _ hm, trivial⟩

lemma callStore (hI : Inward I) {f : σ → Except Failure α × σ} {event : Except Failure α → Event} :
    Keeps I (Exec.callStore f event) fun _ => True := by
  intro m hm
  exact ⟨hI.store m _ _ hm, fun _ _ => trivial⟩

lemma nested (hI : Inward I) {body : Exec σ α} (h : Keeps I body Q) :
    Keeps I (Exec.nested body) Q := by
  intro m hm
  unfold Exec.nested
  split
  · exact ⟨hm, fun b hb => by cases hb⟩
  · obtain ⟨h1, h2⟩ := h _ (hI.depth m (m.depth + 1) (max m.deepest (m.depth + 1)) hm)
    exact ⟨hI.depth _ _ _ h1, h2⟩

end Inward

end ScriptedNotes.Run.Exec
