import Mathlib.Tactic.Common
import ScriptedNotes.Proofs.Run.Discipline

/-!
Computations that come to an end. The evaluator hands its fuel on to every part of what it runs, so
a computation is looked at here as a function of its fuel. It halts when from some fuel on it always
ends the same way, within its fuel. Computations that halt are put together to ones that do: there
is a rule for each way in which the evaluator does so. A computation that needs no fuel halts when
it is safe, so the rules for lists hold of safe computations too; loops over conditions and ranges
are safe, but need not halt.
-/

namespace ScriptedNotes.Run

/-- With some replies, the procedure of the host comes to this point. -/
inductive Action.Reaches : Action → Action → Prop where
  | here (a : Action) : Action.Reaches a a
  | ask {request : Request} {next : request.Reply → Action} {b : Action} (reply : request.Reply)
      (h : Action.Reaches (next reply) b) : Action.Reaches (.ask request next) b
  | register {name description : String} {run : List Value → Action} {next b : Action}
      (h : Action.Reaches next b) : Action.Reaches (.register name description run next) b

namespace Discipline

variable {σ α β : Type} {D : Discipline σ} {m : Machine σ}
variable {P Q : Heap → α → Prop} {R : Heap → β → Prop}

/-- From some fuel on the computation always ends the same way, and as the discipline asks. -/
def Halts (D : Discipline σ) (m : Machine σ) (x : Nat → Exec σ α) (Q : Heap → α → Prop) : Prop :=
  D.Inv m → ∃ p, D.Ends m Q p ∧ ∃ n, ∀ fuel ≥ n, x fuel m = p

/-- A computation that needs no fuel. -/
lemma Safe.halts {x : Exec σ α} (h : D.Safe m x Q) : D.Halts m (fun _ => x) Q := by
  intro hm
  exact ⟨x m, h hm, 0, fun _ _ => rfl⟩

/-- What uses up one unit of fuel. -/
lemma Halts.succ {x : Nat → Exec σ α} (h : D.Halts m (fun fuel => x (fuel + 1)) Q) :
    D.Halts m x Q := by
  intro hm
  obtain ⟨p, hp, n, hn⟩ := h hm
  refine ⟨p, hp, n + 1, fun fuel hfuel => ?_⟩
  obtain ⟨k, rfl⟩ : ∃ k, fuel = k + 1 := ⟨fuel - 1, by omega⟩
  exact hn k (by omega)

lemma Halts.mono {x : Nat → Exec σ α} (h : D.Halts m x P) (hPQ : ∀ h a, P h a → Q h a) :
    D.Halts m x Q := by
  intro hm
  obtain ⟨p, ⟨h1, h2, h3⟩, hn⟩ := h hm
  exact ⟨p, ⟨h1, h2, fun a ha => hPQ _ a (h3 a ha)⟩, hn⟩

/-- The state in which a computation begins leads to itself. -/
lemma Halts.here {x : Nat → Exec σ α} (h : D.Leads m m → D.Halts m x Q) : D.Halts m x Q :=
  fun hm => h (.refl hm) hm

/-! ### The monad -/

/-- The larger of two fuels is enough for two computations in a row. -/
theorem Halts.bind {x : Nat → Exec σ α} {f : Nat → α → Exec σ β}
    (hx : D.Halts m x P)
    (hf : ∀ m' a, D.Leads m m' → P m'.heap a → D.Halts m' (fun fuel => f fuel a) R) :
    D.Halts m (fun fuel => x fuel >>= f fuel) R := by
  intro hm
  obtain ⟨⟨r, m'⟩, ⟨h1, h2, h3⟩, n, hn⟩ := hx hm
  have hbind : ∀ fuel ≥ n, (x fuel >>= f fuel) m = Exec.bind (fun _ => (r, m')) (f fuel) m := by
    intro fuel hfuel
    show Exec.bind (x fuel) (f fuel) m = _
    simp only [Exec.bind, hn fuel hfuel]
  cases r with
  | value a =>
    obtain ⟨p, ⟨h1', h2', h3'⟩, n', hn'⟩ := hf m' a h1 (h3 a rfl) h1.after
    refine ⟨p, ⟨h1.trans h1', h2', h3'⟩, max n n', fun fuel hfuel => ?_⟩
    exact (hbind fuel (by omega)).trans (hn' fuel (by omega))
  | error e => exact ⟨(.error e, m'), .ofError h1, n, hbind⟩
  | unfinished =>
    exact ⟨(.unfinished, m'), .ofUnfinished h1 fun he => h2 he rfl, n, hbind⟩

lemma halts_pure {a : α} (h : Q m.heap a) :
    D.Halts m (fun _ => (pure a : Exec σ α)) Q :=
  (safe_pure h).halts

lemma halts_throw (message : String) :
    D.Halts m (fun _ => (Exec.throw message : Exec σ α)) Q :=
  (safe_throw message).halts

lemma halts_ofExcept {r : Except String α} (h : ∀ a, r = .ok a → Q m.heap a) :
    D.Halts m (fun _ => (Exec.ofExcept r : Exec σ α)) Q :=
  (safe_ofExcept h).halts

lemma Halts.attempt {x : Nat → Exec σ α} (h : D.Halts m x Q) :
    D.Halts m (fun fuel => (x fuel).attempt) fun h r => ∀ a, r = .ok a → Q h a := by
  intro hm
  obtain ⟨p, hp, n, hn⟩ := h hm
  have hsafe : D.Safe m (fun _ => p) Q := fun _ => hp
  refine ⟨Exec.attempt (fun _ => p) m, hsafe.attempt hm, n, fun fuel hfuel => ?_⟩
  simp only [Exec.attempt, hn fuel hfuel]

/-- The body of a call halts where it is run, or it is not run at all. -/
lemma halts_nested (hD : D.Lawful) {x : Nat → Exec σ α}
    (h : m.depth < maxDepth → D.Halts m.deeper x Q) :
    D.Halts m (fun fuel => (x fuel).nested) Q := by
  intro hm
  by_cases hdepth : m.depth < maxDepth
  · obtain ⟨p, hp, n, hn⟩ := h hdepth (hD.deeper m hdepth hm)
    have hsafe : D.Safe m.deeper (fun _ => p) Q := fun _ => hp
    refine ⟨Exec.nested (fun _ => p) m, safe_nested hD hsafe hm, n, fun fuel hfuel => ?_⟩
    have hrun : x fuel { m with
        depth := m.depth + 1, deepest := max m.deepest (m.depth + 1) } = p :=
      hn fuel hfuel
    simp only [Exec.nested, hrun]
  · have hlimit : maxDepth ≤ m.depth := by omega
    refine ⟨(.error (.thrown "Maximum call stack size exceeded"), m), .ofError (.refl hm), 0,
      fun fuel _ => ?_⟩
    simp only [Exec.nested, if_pos hlimit]

/-- What needs no fuel halts when it is safe. -/
lemma halts_const_iff {x : Exec σ α} : D.Halts m (fun _ => x) Q ↔ D.Safe m x Q := by
  constructor
  · intro h hm
    obtain ⟨p, hp, n, hn⟩ := h hm
    have hx : x m = p := hn n (Nat.le_refl n)
    exact hx ▸ hp
  · exact Safe.halts

/-! ### Lists -/

lemma halts_each {f : Nat → α → Exec σ β}
    (hR : ∀ m m' b, D.Leads m m' → R m.heap b → R m'.heap b) :
    ∀ (l : List α) {m : Machine σ},
      (∀ a ∈ l, ∀ m', D.Leads m m' → D.Halts m' (fun fuel => f fuel a) R) →
      D.Halts m (fun fuel => Exec.each (f fuel) l) fun h bs => ∀ b ∈ bs, R h b
  | [], _, _ => halts_pure (by simp)
  | a :: rest, m, h => by
    refine Halts.here fun hstay => ?_
    simp only [Exec.each]
    refine (h a (by simp) m hstay).bind fun m₁ b h₁ hb => ?_
    refine Halts.bind (halts_each hR rest fun a' ha' m' h' => ?_) fun m₂ bs h₂ hbs => ?_
    · exact h a' (by simp [ha']) m' (h₁.trans h')
    · refine halts_pure ?_
      simpa using ⟨hR _ _ b h₂ hb, hbs⟩

lemma halts_first? {test : Nat → α → Exec σ Bool} :
    ∀ (l : List α) {m : Machine σ},
      (∀ a ∈ l, ∀ m', D.Leads m m' → D.Halts m' (fun fuel => test fuel a) fun _ _ => True) →
      D.Halts m (fun fuel => Exec.first? (test fuel) l) fun _ r => ∀ a, r = some a → a ∈ l
  | [], _, _ => halts_pure (by simp)
  | a :: rest, m, h => by
    refine Halts.here fun hstay => ?_
    simp only [Exec.first?]
    refine (h a (by simp) m hstay).bind fun m₁ b h₁ _ => ?_
    cases b with
    | true => exact halts_pure (by simp)
    | false =>
      have hrest := halts_first? rest fun a' ha' m' h' =>
        h a' (by simp [ha']) m' (h₁.trans h')
      exact hrest.mono fun _ r hr a' ha' => List.mem_cons_of_mem a (hr a' ha')

/-- What a loop makes of the ends of its body. -/
structure Leaves (B A : Heap → Flow → Prop) : Prop where
  normal : ∀ h, A h .normal
  left : ∀ h flow flow', B h flow → flow.leavesLoop? = some flow' → A h flow'

lemma leaves_fairFlow (D : Discipline σ) : Leaves D.FairFlow D.FairFlow where
  normal _ := trivial
  left h flow flow' hflow hl := by
    cases flow <;> cases hl
    · exact hflow
    · trivial

variable {A B : Heap → Flow → Prop}

lemma halts_sequence {f : Nat → α → Exec σ Flow} (hn : ∀ h, A h .normal) :
    ∀ (l : List α) {m : Machine σ},
      (∀ a ∈ l, ∀ m', D.Leads m m' → D.Halts m' (fun fuel => f fuel a) A) →
      D.Halts m (fun fuel => Exec.sequence (f fuel) l) A
  | [], _, _ => halts_pure (hn _)
  | a :: rest, m, h => by
    refine Halts.here fun hstay => ?_
    simp only [Exec.sequence]
    refine (h a (by simp) m hstay).bind fun m₁ flow h₁ hflow => ?_
    cases flow with
    | normal =>
      exact halts_sequence hn rest fun a' ha' m' h' => h a' (by simp [ha']) m' (h₁.trans h')
    | «return» v => exact halts_pure hflow
    | «break» => exact halts_pure hflow
    | «continue» => exact halts_pure hflow

lemma halts_forItems {body : Nat → α → Exec σ Flow} (hBA : Leaves B A) :
    ∀ (l : List α) {m : Machine σ},
      (∀ a ∈ l, ∀ m', D.Leads m m' → D.Halts m' (fun fuel => body fuel a) B) →
      D.Halts m (fun fuel => Exec.forItems (body fuel) l) A
  | [], _, _ => halts_pure (hBA.normal _)
  | a :: rest, m, h => by
    refine Halts.here fun hstay => ?_
    simp only [Exec.forItems]
    refine (h a (by simp) m hstay).bind fun m₁ flow h₁ hflow => ?_
    cases hl : flow.leavesLoop? with
    | some flow' => exact halts_pure (hBA.left _ _ _ hflow hl)
    | none =>
      exact halts_forItems hBA rest fun a' ha' m' h' => h a' (by simp [ha']) m' (h₁.trans h')

/-! ### Lists without fuel -/

lemma safe_each {f : α → Exec σ β} (hR : ∀ m m' b, D.Leads m m' → R m.heap b → R m'.heap b)
    (l : List α) (h : ∀ a ∈ l, ∀ m', D.Leads m m' → D.Safe m' (f a) R) :
    D.Safe m (Exec.each f l) fun h bs => ∀ b ∈ bs, R h b :=
  halts_const_iff.1 (halts_each hR l fun a ha m' h' => (h a ha m' h').halts)

lemma safe_first? {test : α → Exec σ Bool} (l : List α)
    (h : ∀ a ∈ l, ∀ m', D.Leads m m' → D.Safe m' (test a) fun _ _ => True) :
    D.Safe m (Exec.first? test l) fun _ r => ∀ a, r = some a → a ∈ l :=
  halts_const_iff.1 (halts_first? l fun a ha m' h' => (h a ha m' h').halts)

lemma safe_sequence {f : α → Exec σ Flow} (hn : ∀ h, A h .normal) (l : List α)
    (h : ∀ a ∈ l, ∀ m', D.Leads m m' → D.Safe m' (f a) A) : D.Safe m (Exec.sequence f l) A :=
  halts_const_iff.1 (halts_sequence hn l fun a ha m' h' => (h a ha m' h').halts)

lemma safe_forItems {body : α → Exec σ Flow} (hBA : Leaves B A) (l : List α)
    (h : ∀ a ∈ l, ∀ m', D.Leads m m' → D.Safe m' (body a) B) :
    D.Safe m (Exec.forItems body l) A :=
  halts_const_iff.1 (halts_forItems hBA l fun a ha m' h' => (h a ha m' h').halts)

/-! ### Procedures of the host -/

section

variable {call : Nat → Value → List Value → Exec σ Value}
variable {invoke : Nat → String → List Value → Exec σ Value}

/-- The calls and the invocations that a procedure comes to ask for halt, and what it comes to
register may be registered. -/
structure Supports (D : Discipline σ) (call : Nat → Value → List Value → Exec σ Value)
    (invoke : Nat → String → List Value → Exec σ Value) (m : Machine σ) (a : Action) : Prop where
  call : ∀ m' f args next, D.Leads m m' → a.Reaches (.ask (.call f args) next) →
    D.Fair m'.heap f → D.FairAll m'.heap args → D.Halts m' (fun n => call n f args) D.Fair
  invoke : ∀ m' name args next, D.Leads m m' → a.Reaches (.ask (.invoke name args) next) →
    D.FairAll m'.heap args → D.Halts m' (fun n => invoke n name args) D.Fair
  register : ∀ m' name description run next, D.Leads m m' →
    a.Reaches (.register name description run next) →
    D.PermitsHandler m'.heap (.host run true) → D.admits m'.heap name (.host run true)

/-- So it is from every point on that the procedure comes to. -/
lemma Supports.of_reaches {m' : Machine σ} {a b : Action} (h : D.Supports call invoke m a)
    (hlead : D.Leads m m') (hreach : ∀ c, b.Reaches c → a.Reaches c) :
    D.Supports call invoke m' b where
  call m'' f args next h' hc := h.call m'' f args next (hlead.trans h') (hreach _ hc)
  invoke m'' name args next h' hc := h.invoke m'' name args next (hlead.trans h') (hreach _ hc)
  register m'' name description run next h' hc :=
    h.register m'' name description run next (hlead.trans h') (hreach _ hc)

variable (hD : D.Lawful) (S : Backend σ)

include hD

/-- A request halts when the call or the invocation that it asks for does. -/
lemma halts_answer (request : Request)
    (hcall : ∀ f args, request = .call f args → D.Halts m (fun n => call n f args) D.Fair)
    (hinvoke : ∀ name args, request = .invoke name args →
      D.Halts m (fun n => invoke n name args) D.Fair) :
    D.Halts m (fun n => Exec.answer S (call n) (invoke n) request) fun h reply =>
      request.ReplyClosures (D.allowed h) reply := by
  cases request with
  | emit kind text => exact (hD.safe_emit kind text).halts
  | clear => exact hD.safe_clear.halts
  | sleep millis => exact (hD.safe_pause _).halts
  | change c => exact (hD.safe_change S c).halts.attempt.mono fun _ _ _ => trivial
  | read path => exact (hD.safe_read S path).halts.attempt.mono fun _ _ _ => trivial
  | call f args => exact (hcall f args rfl).attempt
  | invoke name args => exact (hinvoke name args rfl).attempt
  | tasks => exact hD.safe_getTasks.halts.bind fun _ _ _ _ => halts_pure trivial

/-- A procedure of the host halts when what it comes to ask for does. -/
theorem halts_perform {a : Action} (ha : D.Permits m.heap a) (h : D.Supports call invoke m a) :
    D.Halts m (fun n => Exec.perform S (call n) (invoke n) a) D.Fair := by
  induction a generalizing m with
  | done v => exact halts_pure (ha.result hD)
  | fail e => exact (safe_fail e).halts
  | ask request next ih =>
    refine Halts.here fun hstay => ?_
    have hrequest := ha.request hD
    refine (halts_answer hD S request ?_ ?_).bind fun m' reply hlead hreply => ?_
    · rintro f args rfl
      exact h.call m f args next hstay (.here _) hrequest.1 hrequest.2
    · rintro name args rfl
      exact h.invoke m name args next hstay (.here _) hrequest
    · exact ih reply ((hlead.permits hD ha).next hD hreply)
        (h.of_reaches hlead fun _ hreach => .ask reply hreach)
  | register name description run next _ ih =>
    refine Halts.here fun hstay => ?_
    obtain ⟨hrun, hnext⟩ := ha.register
    have hadmits := h.register m name description run next hstay (.here _) hrun
    refine (hD.safe_register rfl hadmits).halts.bind fun m' _ hlead _ => ?_
    exact ih (hlead.permits hD hnext) (h.of_reaches hlead fun _ hreach => .register hreach)

end

/-! ### Loops that may be cut short -/

lemma safe_unfinished (hend : ¬ D.ending) : D.Safe m (Exec.unfinished : Exec σ α) Q := by
  intro hm
  exact .ofUnfinished (.refl hm) hend

lemma safe_forNumbers (hend : ¬ D.ending) {body : Float → Exec σ Flow} {stop : Float}
    (hBA : Leaves B A) :
    ∀ (fuel : Nat) (x : Float) {m : Machine σ},
      (∀ x m', D.Leads m m' → D.Safe m' (body x) B) →
      D.Safe m (Exec.forNumbers body stop fuel x) A
  | 0, _, _, _ => safe_unfinished hend
  | fuel + 1, x, m, h => by
    intro hm
    unfold Exec.forNumbers
    split
    · refine Safe.bind (h x m (.refl hm)) (fun m₁ flow h₁ hflow => ?_) hm
      split
      · next flow' hl => exact safe_pure (hBA.left _ _ _ hflow hl)
      · exact safe_forNumbers hend hBA fuel (x + 1) fun x m' h' => h x m' (h₁.trans h')
    · exact safe_pure (hBA.normal _) hm

lemma safe_whileTrue (hend : ¬ D.ending) {condition : Exec σ Bool} {body : Exec σ Flow}
    (hBA : Leaves B A) :
    ∀ (fuel : Nat) {m : Machine σ},
      (∀ m', D.Leads m m' → D.Safe m' condition fun _ _ => True) →
      (∀ m', D.Leads m m' → D.Safe m' body B) →
      D.Safe m (Exec.whileTrue condition body fuel) A
  | 0, _, _, _ => safe_unfinished hend
  | fuel + 1, m, hc, h => by
    intro hm
    unfold Exec.whileTrue
    refine Safe.bind (hc m (.refl hm)) (fun m₁ b h₁ _ => ?_) hm
    cases b with
    | false => exact safe_pure (hBA.normal _)
    | true =>
      refine Safe.bind (h m₁ h₁) fun m₂ flow h₂ hflow => ?_
      split
      · next flow' hl => exact safe_pure (hBA.left _ _ _ hflow hl)
      · have h₁₂ := h₁.trans h₂
        exact safe_whileTrue hend hBA fuel (fun m' h' => hc m' (h₁₂.trans h'))
          fun m' h' => h m' (h₁₂.trans h')

end Discipline

end ScriptedNotes.Run
