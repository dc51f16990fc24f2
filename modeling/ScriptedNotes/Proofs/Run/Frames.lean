import Mathlib.Tactic.Common
import ScriptedNotes.Run.Scope

/-!
What steps on the frames leave alone. Frames are shared: a function that was made in a frame can
change what the frame binds long after the frame's block has ended. Below, a step may enter a scope,
declare names in frames from a given number on, or assign to a name as the evaluator does, and it
tells of an assignment that found no variable of the name. After any number of such steps the frames
before that number are the same up to assigned values, and global ones have gained the names of the
assignments that were told of, and no others (`undisturbed_of_edits`).
-/

namespace ScriptedNotes.Run.Heap

/-- The frames around a frame, the nearest first. -/
def outerOf (h : Heap) (frame : FrameId) : List FrameId :=
  (h[frame]?.map (·.outer)).getD []

/-- Every frame can see frames only that are there, a global one last. -/
def Nested (h : Heap) : Prop :=
  ∀ frame < h.size, (∀ f ∈ h.chain frame, f < h.size) ∧ h.outerOf (h.globalOf frame) = []

/-- What an assignment tells of: the frame that it was made from and the name, if no variable of the
name was found. -/
def unboundBy (h : Heap) (frame : FrameId) (name : String) : List (FrameId × String) :=
  if (h.holder? frame name).isNone then [(frame, name)] else []

/-- A step on the frames that declares names only from the frame `base` on, with the assignments to
unknown names. -/
inductive Edit (base : Nat) : Heap → List (FrameId × String) → Heap → Prop where
  | enter {h : Heap} {frame : FrameId} (hf : frame < h.size) :
      Edit base h [] (h.child (h.chain frame))
  | declare {h : Heap} {frame : FrameId} (name : String) (v : Value) (constant : Bool)
      (hf : base ≤ frame) : Edit base h [] (h.declare frame name v constant)
  | assign {h : Heap} {frame place : FrameId} {name : String} (v : Value) (hf : frame < h.size)
      (hplace : h.assignee? frame name = some place) :
      Edit base h (h.unboundBy frame name) (h.declare place name v false)

/-- Any number of such steps, with the assignments to unknown names, the last one first. -/
inductive Edits (base : Nat) (h : Heap) : List (FrameId × String) → Heap → Prop where
  | refl : Edits base h [] h
  | tail {made new : List (FrameId × String)} {g g' : Heap} (he : Edits base h made g)
      (hstep : Edit base g new g') : Edits base h (new ++ made) g'

/-- What was in the frames of `h` is the same in `h'`, up to assignments; those that found no
variable of the name are `made`. -/
structure Undisturbed (h : Heap) (made : List (FrameId × String)) (h' : Heap) : Prop where
  /-- The frames are still there, inside the same others. -/
  outer : ∀ frame < h.size, frame < h'.size ∧ h'.outerOf frame = h.outerOf frame
  /-- A frame binds the names that it bound before, and a global one also those that were assigned
  to, from inside of it, without having been found. -/
  names : ∀ frame < h.size, ∀ name, (h'.binding? frame name).isSome ↔
    (h.binding? frame name).isSome ∨
      h.outerOf frame = [] ∧ ∃ via, (via, name) ∈ made ∧ h'.globalOf via = frame
  /-- No frame around such an assignment bound the name before. -/
  unknown : ∀ via name, (via, name) ∈ made → via < h'.size ∧
    ∀ frame ∈ h'.chain via, h.binding? frame name = none
  /-- Constants keep their values. -/
  constants : ∀ frame name b, h.binding? frame name = some b → b.constant = true →
    h'.binding? frame name = some b

/-! ### Single steps -/

section

variable {h : Heap} {frame : FrameId} {name : String}

lemma chain_eq (h : Heap) (frame : FrameId) : h.chain frame = frame :: h.outerOf frame := rfl

lemma globalOf_mem_chain (h : Heap) (frame : FrameId) : h.globalOf frame ∈ h.chain frame := by
  unfold globalOf
  rw [chain_eq, List.getLastD_cons, List.getLastD_eq_getLast?]
  cases hl : (h.outerOf frame).getLast? with
  | none => simp
  | some f => simp [List.mem_of_getLast? hl]

lemma globalOf_congr {g : Heap} (houter : g.outerOf frame = h.outerOf frame) :
    g.globalOf frame = h.globalOf frame := by
  unfold globalOf
  rw [chain_eq, chain_eq, houter]

lemma lt_size_of_binding {b : Binding} (hb : h.binding? frame name = some b) : frame < h.size := by
  obtain ⟨f, hf, -⟩ := Option.bind_eq_some_iff.1 hb
  exact (Array.getElem?_eq_some_iff.1 hf).1

lemma binding_of_holder {f : FrameId} (hf : h.holder? frame name = some f) :
    f ∈ h.chain frame ∧ ∃ b, h.binding? f name = some b := by
  have hsome := List.find?_some hf
  exact ⟨List.mem_of_find?_eq_some hf, Option.isSome_iff_exists.1 hsome⟩

lemma binding_eq_none_of_holder (hnone : h.holder? frame name = none) {f : FrameId}
    (hf : f ∈ h.chain frame) : h.binding? f name = none := by
  have hnot := List.find?_eq_none.1 hnone f hf
  simpa using hnot

@[simp] lemma size_child (h : Heap) (outer : List FrameId) :
    Array.size (h.child outer) = Array.size h + 1 :=
  Array.size_push ..

@[simp] lemma size_declare (h : Heap) (frame : FrameId) (name : String) (v : Value)
    (constant : Bool) : Array.size (h.declare frame name v constant) = Array.size h :=
  Array.size_modify ..

lemma outerOf_child {outer : List FrameId} (hf : frame < h.size) :
    (h.child outer).outerOf frame = h.outerOf frame := by
  unfold outerOf child
  rw [Array.getElem?_push, if_neg (Nat.ne_of_lt hf)]

lemma outerOf_child_new (h : Heap) (outer : List FrameId) :
    (h.child outer).outerOf h.size = outer := by
  unfold outerOf child
  simp

lemma binding_child {outer : List FrameId} (hf : frame < h.size) :
    (h.child outer).binding? frame name = h.binding? frame name := by
  unfold binding? child
  rw [Array.getElem?_push, if_neg (Nat.ne_of_lt hf)]

lemma outerOf_declare (place : FrameId) (v : Value) (constant : Bool) :
    (h.declare place name v constant).outerOf frame = h.outerOf frame := by
  unfold outerOf declare
  rw [Array.getElem?_modify]
  split
  · cases h[frame]? <;> rfl
  · rfl

lemma binding_declare_of_ne {place : FrameId} {other : String} (v : Value) (constant : Bool)
    (hne : place ≠ frame ∨ other ≠ name) :
    (h.declare place other v constant).binding? frame name = h.binding? frame name := by
  unfold binding? declare
  rw [Array.getElem?_modify]
  split
  · next heq =>
    have hother : name ≠ other := by
      rcases hne with hne | hne
      · exact absurd heq hne
      · exact hne.symm
    cases h[frame]? with
    | none => rfl
    | some f => exact Keyed.get?_put_of_ne hother _ _
  · rfl

/-- A declaration changes one binding at most. -/
lemma binding_declare_cases (h : Heap) (frame place : FrameId) (name other : String) (v : Value)
    (constant : Bool) :
    (h.declare place other v constant).binding? frame name = h.binding? frame name ∨
      place = frame ∧ other = name := by
  by_cases hsame : place = frame ∧ other = name
  · exact .inr hsame
  · exact .inl (binding_declare_of_ne v constant (not_and_or.1 hsame))

lemma binding_declare_self (v : Value) (constant : Bool) (hf : frame < h.size) :
    (h.declare frame name v constant).binding? frame name = some ⟨v, constant⟩ := by
  unfold binding? declare
  rw [Array.getElem?_modify, if_pos rfl, Array.getElem?_eq_getElem hf]
  exact Keyed.get?_put_self _ _ _

lemma isSome_binding_declare {place : FrameId} {other : String} (v : Value) (constant : Bool)
    (hb : (h.binding? frame name).isSome) :
    ((h.declare place other v constant).binding? frame name).isSome := by
  rcases binding_declare_cases h frame place name other v constant with heq | ⟨rfl, rfl⟩
  · rwa [heq]
  · obtain ⟨b, hb⟩ := Option.isSome_iff_exists.1 hb
    rw [binding_declare_self v constant (lt_size_of_binding hb)]
    rfl

/-! ### Nesting -/

lemma Nested.root_of_mem (hn : h.Nested) (hf : frame < h.size) :
    h.globalOf frame < h.size ∧ h.outerOf (h.globalOf frame) = [] :=
  ⟨(hn frame hf).1 _ (globalOf_mem_chain h frame), (hn frame hf).2⟩

/-- Whoever keeps the size and the frames around each frame keeps the nesting. -/
lemma Nested.congr {h' : Heap} (hn : h.Nested) (hsize : h'.size = h.size)
    (houter : ∀ frame, h'.outerOf frame = h.outerOf frame) : h'.Nested := by
  intro frame hf
  have hchain : h'.chain frame = h.chain frame := by
    rw [chain_eq, chain_eq, houter]
  unfold globalOf
  rw [hchain, hsize, houter]
  exact hn frame (hsize ▸ hf)

lemma Nested.declare (hn : h.Nested) (place : FrameId) (name : String) (v : Value)
    (constant : Bool) : (h.declare place name v constant).Nested :=
  hn.congr (size_declare ..) fun _ => outerOf_declare place v constant

/-- A new frame inside frames that are nested already. -/
lemma Nested.child (hn : h.Nested) {outer : List FrameId} (hmem : ∀ f ∈ outer, f < h.size)
    (hlast : ∀ f, outer.getLast? = some f → h.outerOf f = []) : (h.child outer).Nested := by
  intro frame hf
  rw [size_child] at hf
  by_cases hold : frame < h.size
  · obtain ⟨hchain, hglobal⟩ := hn frame hold
    have heq : (h.child outer).chain frame = h.chain frame := by
      rw [chain_eq, chain_eq, outerOf_child hold]
    unfold globalOf
    rw [heq]
    refine ⟨fun f hf' => ?_, ?_⟩
    · rw [size_child]
      exact Nat.lt_succ_of_lt (hchain f hf')
    · rw [← globalOf, outerOf_child (hn.root_of_mem hold).1]
      exact hglobal
  · obtain rfl : frame = h.size := by omega
    have heq : (h.child outer).chain h.size = h.size :: outer := by
      rw [chain_eq, outerOf_child_new]
    unfold globalOf
    rw [heq, size_child]
    refine ⟨fun f hf' => ?_, ?_⟩
    · rcases List.mem_cons.1 hf' with rfl | hf'
      · exact Nat.lt_succ_self _
      · exact Nat.lt_succ_of_lt (hmem f hf')
    · rw [List.getLastD_cons, List.getLastD_eq_getLast?]
      cases hl : outer.getLast? with
      | none =>
        have hnil : outer = [] := List.getLast?_eq_none_iff.1 hl
        rw [Option.getD_none, outerOf_child_new, hnil]
      | some f =>
        rw [Option.getD_some, outerOf_child (hmem f (List.mem_of_getLast? hl))]
        exact hlast f hl

lemma Nested.enter (hn : h.Nested) (hf : frame < h.size) : (h.child (h.chain frame)).Nested := by
  refine hn.child (hn frame hf).1 fun f hl => ?_
  have hglobal : h.globalOf frame = f := by
    unfold globalOf
    rw [List.getLastD_eq_getLast?, hl, Option.getD_some]
  rw [← hglobal]
  exact (hn frame hf).2

lemma Nested.root (hn : h.Nested) : h.root.2.Nested :=
  hn.child (by simp) (by simp)

end

/-! ### Steps -/

section

variable {base : Nat} {made new : List (FrameId × String)} {g g' h : Heap} {frame : FrameId}
  {name : String}

lemma Edit.nested (he : Edit base g new g') (hn : g.Nested) : g'.Nested := by
  cases he with
  | enter hf => exact hn.enter hf
  | declare name v constant _ => exact hn.declare _ name v constant
  | assign v _ _ => exact hn.declare _ _ v false

lemma Edit.outer (he : Edit base g new g') (hf : frame < g.size) :
    frame < g'.size ∧ g'.outerOf frame = g.outerOf frame := by
  cases he with
  | enter _ =>
    rw [size_child]
    exact ⟨Nat.lt_succ_of_lt hf, outerOf_child hf⟩
  | declare name v constant _ =>
    rw [size_declare]
    exact ⟨hf, outerOf_declare _ v constant⟩
  | assign v _ _ =>
    rw [size_declare]
    exact ⟨hf, outerOf_declare _ v false⟩

/-- Where an assignment takes place, the name is bound and no constant, or it is unknown. -/
lemma assignee_cases {via place : FrameId} (h : g.assignee? via name = some place) :
    (∃ b, g.binding? place name = some b ∧ b.constant = false) ∨
      g.holder? via name = none ∧ g.globalOf via = place := by
  unfold assignee? at h
  cases hh : g.holder? via name with
  | none =>
    rw [hh] at h
    cases h
    exact .inr ⟨rfl, rfl⟩
  | some f =>
    rw [hh] at h
    obtain ⟨-, b, hb⟩ := binding_of_holder hh
    simp only [hb, Option.any_some] at h
    split at h
    · cases h
    · next hconst =>
      cases h
      exact .inl ⟨b, hb, by simpa using hconst⟩

/-- A name that a step adds to a frame before the base was assigned to from inside of that frame,
which is global, without having been found. -/
lemma Edit.gains (he : Edit base g new g') (hn : g.Nested) (hf : frame < g.size)
    (hbase : frame < base) (hb : (g'.binding? frame name).isSome)
    (hnot : g.binding? frame name = none) :
    g.outerOf frame = [] ∧ ∃ via, (via, name) ∈ new ∧ via < g.size ∧ g.globalOf via = frame := by
  cases he with
  | enter _ =>
    rw [binding_child hf, hnot] at hb
    cases hb
  | @declare place other v constant hplace =>
    have hne : place ≠ frame := Nat.ne_of_gt (Nat.lt_of_lt_of_le hbase hplace)
    rw [binding_declare_of_ne v constant (.inl hne), hnot] at hb
    cases hb
  | @assign via place other v hvia hplace =>
    rcases binding_declare_cases g frame place name other v false with heq | ⟨rfl, rfl⟩
    · rw [heq, hnot] at hb
      cases hb
    · rcases assignee_cases hplace with ⟨b, hbound, -⟩ | ⟨hnone, hglobal⟩
      · rw [hnot] at hbound
        cases hbound
      · refine ⟨hglobal ▸ (hn via hvia).2, via, ?_, hvia, hglobal⟩
        rw [unboundBy, hnone]
        exact List.mem_singleton_self _

/-- A name that was assigned to without having been found is in the global frame from then on, and
no frame around the assignment bound it before. -/
lemma Edit.of_mem (he : Edit base g new g') (hn : g.Nested) {via : FrameId}
    (hmem : (via, name) ∈ new) :
    via < g.size ∧ (g'.binding? (g.globalOf via) name).isSome ∧
      ∀ f ∈ g.chain via, g.binding? f name = none := by
  cases he with
  | enter _ => cases hmem
  | declare _ _ _ _ => cases hmem
  | @assign _ place _ v hvia hplace =>
    unfold unboundBy at hmem
    split at hmem
    · next hnone =>
      cases List.mem_singleton.1 hmem
      have hholder : g.holder? via name = none := Option.isNone_iff_eq_none.1 hnone
      obtain rfl : g.globalOf via = place := by
        unfold assignee? at hplace
        rw [hholder] at hplace
        exact Option.some.inj hplace
      refine ⟨hvia, ?_, fun f hf => binding_eq_none_of_holder hholder hf⟩
      rw [binding_declare_self v false (hn.root_of_mem hvia).1]
      rfl
    · cases hmem

/-- No step takes a name away. -/
lemma Edit.isSome_binding (he : Edit base g new g') (hb : (g.binding? frame name).isSome) :
    (g'.binding? frame name).isSome := by
  cases he with
  | enter _ =>
    obtain ⟨b, hb'⟩ := Option.isSome_iff_exists.1 hb
    rw [binding_child (lt_size_of_binding hb')]
    exact hb
  | declare _ v constant _ => exact isSome_binding_declare v constant hb
  | assign v _ _ => exact isSome_binding_declare v false hb

/-- A constant of a frame before the base keeps its value: an assignment would have found it. -/
lemma Edit.constant (he : Edit base g new g') (hbase : frame < base) {b : Binding}
    (hb : g.binding? frame name = some b) (hconst : b.constant = true) :
    g'.binding? frame name = some b := by
  cases he with
  | enter _ => rwa [binding_child (lt_size_of_binding hb)]
  | @declare place other v constant hplace =>
    have hne : place ≠ frame := Nat.ne_of_gt (Nat.lt_of_lt_of_le hbase hplace)
    rwa [binding_declare_of_ne v constant (.inl hne)]
  | @assign via place other v _ hplace =>
    rcases binding_declare_cases g frame place name other v false with heq | ⟨rfl, rfl⟩
    · rwa [heq]
    · rcases assignee_cases hplace with ⟨b', hb', hfalse⟩ | ⟨hnone, hglobal⟩
      · rw [hb] at hb'
        cases hb'
        rw [hconst] at hfalse
        cases hfalse
      · have hmem : place ∈ g.chain via := hglobal ▸ globalOf_mem_chain g via
        rw [binding_eq_none_of_holder hnone hmem] at hb
        cases hb

/-! ### Any number of steps -/

lemma Edits.trans {made' : List (FrameId × String)} (he : Edits base h made g)
    (he' : Edits base g made' g') : Edits base h (made' ++ made) g' := by
  induction he' with
  | refl => exact he
  | tail _ hstep ih =>
    rw [List.append_assoc]
    exact ih.tail hstep

lemma Edits.nested (he : Edits base h made g) (hn : h.Nested) : g.Nested := by
  induction he with
  | refl => exact hn
  | tail _ hstep ih => exact hstep.nested ih

lemma Edits.outer (he : Edits base h made g) (hf : frame < h.size) :
    frame < g.size ∧ g.outerOf frame = h.outerOf frame := by
  induction he with
  | refl => exact ⟨hf, rfl⟩
  | tail _ hstep ih =>
    obtain ⟨hlt, heq⟩ := ih
    obtain ⟨hlt', heq'⟩ := hstep.outer hlt
    exact ⟨hlt', heq'.trans heq⟩

lemma Edits.size_le (he : Edits base h made g) : h.size ≤ g.size := by
  by_contra hlt
  exact absurd (he.outer (Nat.lt_of_not_le hlt)).1 (Nat.lt_irrefl _)

lemma Edits.isSome_binding (he : Edits base h made g) (hb : (h.binding? frame name).isSome) :
    (g.binding? frame name).isSome := by
  induction he with
  | refl => exact hb
  | tail _ hstep ih => exact hstep.isSome_binding ih

lemma Edits.constant (he : Edits base h made g) (hbase : frame < base) {b : Binding}
    (hb : h.binding? frame name = some b) (hconst : b.constant = true) :
    g.binding? frame name = some b := by
  induction he with
  | refl => exact hb
  | tail _ hstep ih => exact hstep.constant hbase ih hconst

/-- The names that steps add to a frame before the base. -/
lemma Edits.gains (he : Edits base h made g) (hn : h.Nested) (hf : frame < h.size)
    (hbase : frame < base) (hb : (g.binding? frame name).isSome)
    (hnot : h.binding? frame name = none) :
    h.outerOf frame = [] ∧ ∃ via, (via, name) ∈ made ∧ via < g.size ∧ g.globalOf via = frame := by
  induction he with
  | refl =>
    rw [hnot] at hb
    cases hb
  | @tail made new g g' hsteps hstep ih =>
    -- the first step behind which the name is there is the one that added it
    cases hbefore : g.binding? frame name with
    | some b =>
      obtain ⟨hroot, via, hmem, hvia, hglobal⟩ := ih (Option.isSome_of_eq_some hbefore)
      obtain ⟨hvia', houter⟩ := hstep.outer hvia
      exact ⟨hroot, via, List.mem_append_right _ hmem, hvia', (globalOf_congr houter).trans hglobal⟩
    | none =>
      obtain ⟨hlt, houter⟩ := hsteps.outer hf
      obtain ⟨hroot, via, hmem, hvia, hglobal⟩ :=
        hstep.gains (hsteps.nested hn) hlt hbase hb hbefore
      obtain ⟨hvia', houter'⟩ := hstep.outer hvia
      exact ⟨houter ▸ hroot, via, List.mem_append_left _ hmem, hvia',
        (globalOf_congr houter').trans hglobal⟩

lemma Edits.of_mem (he : Edits base h made g) (hn : h.Nested) {via : FrameId}
    (hmem : (via, name) ∈ made) :
    via < g.size ∧ (g.binding? (g.globalOf via) name).isSome ∧
      ∀ f ∈ g.chain via, h.binding? f name = none := by
  induction he with
  | refl => cases hmem
  | @tail made new g g' hsteps hstep ih =>
    have hkept : ∀ hvia : via < g.size, g'.globalOf via = g.globalOf via ∧
        g'.chain via = g.chain via := fun hvia =>
      ⟨globalOf_congr (hstep.outer hvia).2, congrArg (via :: ·) (hstep.outer hvia).2⟩
    rcases List.mem_append.1 hmem with hnew | hold
    · obtain ⟨hvia, hsome, hnone⟩ := hstep.of_mem (hsteps.nested hn) hnew
      obtain ⟨hglobal, hchain⟩ := hkept hvia
      rw [hglobal, hchain]
      refine ⟨(hstep.outer hvia).1, hsome, fun f hf => ?_⟩
      by_contra hb
      have hlater := hsteps.isSome_binding (Option.isSome_iff_ne_none.2 hb)
      rw [hnone f hf] at hlater
      cases hlater
    · obtain ⟨hvia, hsome, hnone⟩ := ih hold
      obtain ⟨hglobal, hchain⟩ := hkept hvia
      rw [hglobal, hchain]
      exact ⟨(hstep.outer hvia).1, hstep.isSome_binding hsome, hnone⟩

/-- **Steps that declare names in new frames only leave the old ones undisturbed.** -/
theorem undisturbed_of_edits (hn : h.Nested) (he : Edits h.size h made g) :
    Undisturbed h made g where
  outer _ hf := he.outer hf
  names frame hf name := by
    constructor
    · intro hb
      cases hnot : h.binding? frame name with
      | some b => exact .inl rfl
      | none =>
        obtain ⟨hroot, via, hmem, -, hglobal⟩ := he.gains hn hf hf hb hnot
        exact .inr ⟨hroot, via, hmem, hglobal⟩
    · rintro (hb | ⟨-, via, hmem, rfl⟩)
      · exact he.isSome_binding hb
      · exact (he.of_mem hn hmem).2.1
  unknown _ _ hmem :=
    have hmade := he.of_mem hn hmem
    ⟨hmade.1, hmade.2.2⟩
  constants _ _ _ hb hconst := he.constant (lt_size_of_binding hb) hb hconst

end

end ScriptedNotes.Run.Heap
