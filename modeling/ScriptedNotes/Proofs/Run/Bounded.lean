import Mathlib.Tactic.Common
import ScriptedNotes.Proofs.Run.Forms

/-!
Code whose loops are bounded. `while` goes on for as long as a condition holds, and a range of
numbers may never come to its end; a loop over the items of a value has as many rounds as the value
has items. Code without the first two, at any depth, is bounded. A run whose functions are all
bounded never gets hold of one that is not.

Procedures of the host have loops of their own, which are not looked at here. That they come back is
asked of them by a rank: tasks that they run themselves are lower than they are (`Descends`). What
they do with functions of scripts is up to them.
-/

namespace ScriptedNotes

namespace Script

mutual

/-- No loop over a condition or a range stands anywhere in the expression. -/
def boundedExpr : Expr → Bool
  | .lambda code => boundedFunction code
  | .template parts => boundedParts parts
  | .array items => boundedExprs items
  | .unary _ operand => boundedExpr operand
  | .binary _ left right => boundedExpr left && boundedExpr right
  | .call callee args => boundedExpr callee && boundedExprs args
  | .member object _ => boundedExpr object
  | .index object index => boundedExpr object && boundedExpr index
  | .number _ | .str _ | .bool _ | .nil | .ident _ => true

def boundedExprs : List Expr → Bool
  | [] => true
  | e :: rest => boundedExpr e && boundedExprs rest

def boundedParts : List TemplatePart → Bool
  | [] => true
  | part :: rest => boundedPart part && boundedParts rest

def boundedPart : TemplatePart → Bool
  | .text _ => true
  | .expr e => boundedExpr e

def boundedFunction : Function → Bool
  | .mk _ _ body => boundedStmts body

def boundedStmt : Stmt → Bool
  | .while .. | .forRange .. => false
  | .declare _ _ none | .return none | .break | .continue => true
  | .declare _ _ (some e) | .return (some e) | .expr e | .throw e => boundedExpr e
  | .assign target value => boundedExpr target && boundedExpr value
  | .cond branches none => boundedBranches branches
  | .cond branches (some body) => boundedBranches branches && boundedStmts body
  | .forEach _ items body => boundedExpr items && boundedStmts body
  | .try body handler => boundedStmts body && boundedStmts handler
  | .function code => boundedFunction code

def boundedStmts : List Stmt → Bool
  | [] => true
  | s :: rest => boundedStmt s && boundedStmts rest

def boundedBranches : List Branch → Bool
  | [] => true
  | branch :: rest => boundedBranch branch && boundedBranches rest

def boundedBranch : Branch → Bool
  | .mk condition body => boundedExpr condition && boundedStmts body

end

/-- What tests a list member by member tests every member. -/
lemma forall_of_cons {α : Type} {test : α → Bool} {tests : List α → Bool}
    (hcons : ∀ a as, tests (a :: as) = (test a && tests as)) {as : List α} (h : tests as = true) :
    ∀ a ∈ as, test a = true := by
  induction as with
  | nil => simp
  | cons a as ih =>
    rw [hcons, Bool.and_eq_true] at h
    exact List.forall_mem_cons.2 ⟨h.1, ih h.2⟩

lemma bounded_of_mem_exprs {es : List Expr} (h : boundedExprs es = true) :
    ∀ e ∈ es, boundedExpr e = true :=
  forall_of_cons (fun _ _ => by rw [boundedExprs]) h

lemma bounded_of_mem_parts {parts : List TemplatePart} (h : boundedParts parts = true) :
    ∀ part ∈ parts, boundedPart part = true :=
  forall_of_cons (fun _ _ => by rw [boundedParts]) h

lemma bounded_of_mem_stmts {stmts : List Stmt} (h : boundedStmts stmts = true) :
    ∀ s ∈ stmts, boundedStmt s = true :=
  forall_of_cons (fun _ _ => by rw [boundedStmts]) h

lemma bounded_of_mem_branches {branches : List Branch} (h : boundedBranches branches = true) :
    ∀ b ∈ branches, boundedBranch b = true :=
  forall_of_cons (fun _ _ => by rw [boundedBranches]) h

/-! ### The parts of bounded code -/

lemma bounded_branch {branches : List Branch} {otherwise : Option (List Stmt)}
    (h : boundedStmt (.cond branches otherwise) = true) {condition : Expr} {body : List Stmt}
    (hbranch : .mk condition body ∈ branches) :
    boundedExpr condition = true ∧ boundedStmts body = true := by
  have hbranches : boundedBranches branches = true := by
    cases otherwise with
    | none => simpa only [boundedStmt] using h
    | some _ =>
      simp only [boundedStmt, Bool.and_eq_true] at h
      exact h.1
  simpa only [boundedBranch, Bool.and_eq_true] using bounded_of_mem_branches hbranches _ hbranch

lemma bounded_parts {e : Expr} (h : boundedExpr e = true) :
    ∀ e' ∈ e.parts, boundedExpr e' = true := by
  intro e' he
  cases e with
  | template parts =>
    simp only [boundedExpr] at h
    obtain ⟨part, hpart, he⟩ := List.mem_flatMap.1 he
    have hbounded := bounded_of_mem_parts h part hpart
    cases part with
    | text s => cases he
    | expr e =>
      obtain rfl := List.mem_singleton.1 he
      simpa only [boundedPart] using hbounded
  | array items =>
    simp only [boundedExpr] at h
    exact bounded_of_mem_exprs h e' he
  | call callee args =>
    simp only [boundedExpr, Bool.and_eq_true] at h
    rcases List.mem_cons.1 he with rfl | harg
    · exact h.1
    · exact bounded_of_mem_exprs h.2 e' harg
  | unary | member =>
    obtain rfl := List.mem_singleton.1 he
    simpa only [boundedExpr] using h
  | binary | index =>
    simp only [boundedExpr, Bool.and_eq_true] at h
    obtain rfl | rfl := eq_or_eq_of_mem he
    · exact h.1
    · exact h.2
  | _ => cases he

lemma bounded_indices : ∀ {e : Expr}, boundedExpr e = true → ∀ e' ∈ e.indices, boundedExpr e' = true
  | .member object _, h, e', he => by
    simp only [boundedExpr] at h
    exact bounded_indices h e' he
  | .index object key, h, e', he => by
    simp only [boundedExpr, Bool.and_eq_true] at h
    rcases List.mem_cons.1 he with rfl | hobject
    · exact h.2
    · exact bounded_indices h.1 e' hobject
  | .number _, _, _, he | .str _, _, _, he | .template _, _, _, he | .bool _, _, _, he
  | .nil, _, _, he | .array _, _, _, he | .ident _, _, _, he | .unary _ _, _, _, he
  | .binary _ _ _, _, _, he | .call _ _, _, _, he | .lambda _, _, _, he => by cases he

lemma bounded_exprs {s : Stmt} (h : boundedStmt s = true) :
    ∀ e ∈ s.exprs, boundedExpr e = true := by
  intro e he
  cases s with
  | declare | «return» =>
    obtain rfl := Option.mem_toList.1 he
    simpa only [boundedStmt] using h
  | assign target value =>
    simp only [boundedStmt, Bool.and_eq_true] at h
    rcases List.mem_cons.1 he with rfl | hindex
    · exact h.2
    · exact bounded_indices h.1 e hindex
  | expr | throw =>
    obtain rfl := List.mem_singleton.1 he
    simpa only [boundedStmt] using h
  | forEach =>
    simp only [boundedStmt, Bool.and_eq_true] at h
    obtain rfl := List.mem_singleton.1 he
    exact h.1
  | cond branches otherwise =>
    obtain ⟨⟨condition, body⟩, hbranch, rfl⟩ := List.mem_map.1 he
    exact (bounded_branch h hbranch).1
  | forRange | «while» => cases h
  | _ => cases he

lemma bounded_blocks {s : Stmt} (h : boundedStmt s = true) :
    ∀ body ∈ s.blocks, boundedStmts body = true := by
  intro body hbody
  cases s with
  | forEach =>
    simp only [boundedStmt, Bool.and_eq_true] at h
    obtain rfl := List.mem_singleton.1 hbody
    exact h.2
  | «try» =>
    simp only [boundedStmt, Bool.and_eq_true] at h
    obtain rfl | rfl := eq_or_eq_of_mem hbody
    · exact h.1
    · exact h.2
  | cond branches otherwise =>
    rcases List.mem_append.1 hbody with hotherwise | hbranch
    · obtain rfl := Option.mem_toList.1 hotherwise
      simp only [boundedStmt, Bool.and_eq_true] at h
      exact h.2
    · obtain ⟨⟨condition, body⟩, hmem, rfl⟩ := List.mem_map.1 hbranch
      exact (bounded_branch h hmem).2
  | forRange | «while» => cases h
  | _ => cases hbody

lemma bounded_repeats {s : Stmt} (h : boundedStmt s = true) : s.repeats = false := by
  cases s with
  | forRange | «while» => cases h
  | _ => rfl

end Script

namespace Run

open Script

variable {σ : Type}

/-- The closures whose code is bounded. -/
abbrev Bounded : Function → FrameId → Prop :=
  fun code _ => boundedFunction code = true

/-! ### Procedures of the host -/

/-- A task that the request runs is lower than `n`. -/
def Request.RunsBelow (rank : String → List Value → Nat) (n : Nat) : Request → Prop
  | .invoke name args | .call (.builtin .runTask) (.str name :: args) => rank name args < n
  | .emit .. | .clear | .sleep _ | .change _ | .read _ | .call .. | .tasks => True

/-- All tasks that the procedure comes to run are lower than `n`, whatever it is replied; so it is
with the procedures that it registers and their own ranks. -/
inductive Action.Descends (rank : String → List Value → Nat) : Nat → Action → Prop where
  | done {n : Nat} (v : Value) : Action.Descends rank n (.done v)
  | fail {n : Nat} (e : Error) : Action.Descends rank n (.fail e)
  | ask {n : Nat} {request : Request} {next : request.Reply → Action}
      (h : request.RunsBelow rank n) (hnext : ∀ reply, Action.Descends rank n (next reply)) :
      Action.Descends rank n (.ask request next)
  | register {n : Nat} {name description : String} {run : List Value → Action} {next : Action}
      (hrun : ∀ args, Action.Descends rank (rank name args) (run args))
      (hnext : Action.Descends rank n next) :
      Action.Descends rank n (.register name description run next)

/-- Under this name, a procedure of the host runs lower tasks only. -/
def Handler.Descends (rank : String → List Value → Nat) (name : String) : Handler → Prop
  | .script .. => True
  | .host run _ => ∀ args, (run args).Descends rank (rank name args)

namespace Action

variable {rank : String → List Value → Nat} {n : Nat} {a b : Action}

lemma Descends.of_reaches (h : a.Descends rank n) (hreach : a.Reaches b) : b.Descends rank n := by
  induction hreach with
  | here a => exact h
  | ask reply _ ih =>
    cases h with
    | ask _ hnext => exact ih (hnext reply)
  | register _ ih =>
    cases h with
    | register _ hnext => exact ih hnext

lemma Descends.runsBelow {request : Request} {next : request.Reply → Action}
    (h : a.Descends rank n) (hreach : a.Reaches (.ask request next)) :
    request.RunsBelow rank n := by
  cases h.of_reaches hreach with
  | ask hrequest _ => exact hrequest

lemma Descends.registered {name description : String} {run : List Value → Action} {next : Action}
    (h : a.Descends rank n) (hreach : a.Reaches (.register name description run next)) :
    (Handler.host run true).Descends rank name := by
  cases h.of_reaches hreach with
  | register hrun _ => exact hrun

lemma Descends.emit {kind : LineKind} {text : String} (h : a.Descends rank n) :
    (Action.emit kind text a).Descends rank n :=
  .ask trivial fun _ => h

lemma Descends.change {c : Change} {next : Outcome → Action}
    (h : ∀ o, (next o).Descends rank n) : (Action.change c next).Descends rank n := by
  refine .ask trivial fun reply => ?_
  cases reply with
  | ok o => exact h o
  | error e => exact .fail e

lemma Descends.createFiles (h : a.Descends rank n) :
    ∀ files : List (String × String), (Action.createFiles files a).Descends rank n
  | [] => h
  | _ :: rest => .change fun _ => h.createFiles rest

end Action

/-- The task that is there from the start runs no other. -/
lemma descends_builtin (rank : String → List Value → Nat) :
    ∀ p ∈ Registry.builtin, p.2.handler.Descends rank p.1 := by
  intro p hp
  rw [List.mem_singleton.1 hp]
  intro args
  unfold scaffold
  extract_lets name template files
  split
  · exact .fail _
  · exact .emit (.change fun _ => .createFiles (.emit (.done _)) _)

/-! ### States -/

/-- Every function that a run can get hold of is bounded, and the tasks that procedures of the host
run themselves are lower than these. -/
structure AllBounded (rank : String → List Value → Nat) (m : Machine σ) : Prop where
  heap : m.heap.AllClosures Bounded
  tasks : ∀ p ∈ m.tasks, p.2.handler.AllClosures Bounded
  descends : ∀ p ∈ m.tasks, p.2.handler.Descends rank p.1

variable {rank : String → List Value → Nat}

namespace AllBounded

variable {m m' : Machine σ}

lemma mapHeap (h : AllBounded rank m) {f : Heap → Heap} (hf : (f m.heap).AllClosures Bounded) :
    AllBounded rank (m.mapHeap f) :=
  ⟨hf, h.tasks, h.descends⟩

lemma congr (h : AllBounded rank m) (hheap : m'.heap = m.heap) (htasks : m'.tasks = m.tasks) :
    AllBounded rank m' := by
  refine ⟨?_, ?_, ?_⟩
  · rw [hheap]
    exact h.heap
  · rw [htasks]
    exact h.tasks
  · rw [htasks]
    exact h.descends

lemma register (h : AllBounded rank m) {name description : String} {handler : Handler}
    (hclosures : handler.AllClosures Bounded) (hdescends : handler.Descends rank name) :
    AllBounded rank { m with tasks := Keyed.put name ⟨description, handler⟩ m.tasks } where
  heap := h.heap
  tasks := forall_put (A := fun p : String × Task => p.2.handler.AllClosures Bounded) hclosures
    h.tasks
  descends := forall_put (A := fun p : String × Task => p.2.handler.Descends rank p.1) hdescends
    h.descends

end AllBounded

/-- The discipline of bounded functions: nothing else is in reach, a call comes back to the depth at
which it was made, and the single steps of a run end. -/
def bounding (σ : Type) (rank : String → List Value → Nat) : Discipline σ where
  Inv := AllBounded rank
  Step m m' := m'.depth = m.depth
  refl _ := rfl
  trans _ _ _ h h' := h'.trans h
  allowed _ := Bounded
  later _ P := P = Bounded
  admits _ name handler := handler.AllClosures Bounded ∧ handler.Descends rank name
  sees _ _ := True
  owns _ _ := True
  ending := True

lemma bounding_stay {m m' : Machine σ} (h : AllBounded rank m) (hheap : m'.heap = m.heap)
    (htasks : m'.tasks = m.tasks) (hdepth : m'.depth = m.depth) : (bounding σ rank).Leads m m' :=
  ⟨h, hdepth, h.congr hheap htasks⟩

lemma lawful_bounding : (bounding σ rank).Lawful where
  later_allowed _ := rfl
  later_mono _ _ _ _ h := h
  of_later _ _ _ _ h hcode := h ▸ hcode
  sees_mono _ _ _ _ _ := trivial
  owns_mono _ _ _ _ _ := trivial
  sees_of_owns _ _ _ := trivial
  sees_of_allowed _ _ _ _ := trivial
  heap _ h := h.heap
  tasks _ h p hp := ⟨h.tasks p hp, h.descends p hp⟩
  permits_of_admits _ _ _ h _ hP := hP ▸ h.1
  admits_script _ _ _ _ hcode := ⟨hcode, trivial⟩
  newFrame _ _ h _ := ⟨⟨h, rfl, h.mapHeap (h.heap.child _)⟩, trivial⟩
  declare _ frame name _ constant h _ hv :=
    ⟨h, rfl, h.mapHeap (h.heap.declare frame name hv constant)⟩
  assign m frame name v place h _ hv _ :=
    have hnoted : AllBounded rank (m.noteUnbound frame name) := h.congr rfl rfl
    ⟨h, rfl, hnoted.mapHeap (h.heap.declare place name hv false)⟩
  register _ _ _ _ h _ hhandler := ⟨h, rfl, h.register hhandler.1 hhandler.2⟩
  line _ _ h := bounding_stay h rfl rfl rfl
  cleared _ h := bounding_stay h rfl rfl rfl
  slept _ _ h := bounding_stay h rfl rfl rfl
  changed _ _ _ _ h := bounding_stay h rfl rfl rfl
  read _ _ _ _ h := bounding_stay h rfl rfl rfl
  deeper _ _ h := h.congr rfl rfl
  shallower m m' _ h h' := by
    refine ⟨h, ?_, h'.after.congr rfl rfl⟩
    have hstep : m'.depth = m.depth + 1 := h'.step
    show m'.depth - 1 = m.depth
    rw [hstep, Nat.add_sub_cancel]

end Run

end ScriptedNotes
