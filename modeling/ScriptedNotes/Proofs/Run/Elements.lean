import Mathlib.Tactic.Common
import ScriptedNotes.Proofs.Run.Frames
import ScriptedNotes.Run.Eval

/-!
Assignments to elements. A key leads to a slot of a container, and what can be said of one slot
goes down a path: the element at its end is the assigned one, what a path reads that diverges from
it is as before, and an array that the path goes through has grown just as far as it must. With the
frames this makes an assignment to an element do all or nothing (`element_assignment_exact`).
-/

namespace ScriptedNotes.Run

variable {c c' v e : Value} {k k' : Key} {path pre rest q : List Key}

/-! ### Slots -/

/-- A place in a container. -/
inductive Slot where
  | field (name : String)
  | item (i : Nat)
  deriving DecidableEq

/-- The slot that a key leads to in a container of the right kind. -/
def Key.slot? : Key → Option Slot
  | .field name => some (.field name)
  | .index (.str name) => some (.field name)
  | .index (.number x) => (position? x).map .item
  | .index _ => none

namespace Slot

/-- What a container has in a slot; nil if there is nothing. -/
def get (c : Value) : Slot → Value
  | field name =>
    match c with
    | .object fields => (Keyed.get? name fields).getD .nil
    | _ => .nil
  | item i =>
    match c with
    | .array items => items[i]?.getD .nil
    | _ => .nil

/-- Whether an element can be put into the slot: objects take fields, and arrays take items that are
not too far behind their end. -/
def Fits (c : Value) : Slot → Prop
  | field _ => ∃ fields, c = .object fields
  | item i => ∃ items, c = .array items ∧ i ≤ items.length + maxGap

/-- The container with an element in the slot. -/
def put (c : Value) (e : Value) : Slot → Value
  | field name =>
    match c with
    | .object fields => .object (Keyed.put name e fields)
    | c => c
  | item i =>
    match c with
    | .array items => .array ((padded items (i + 1)).set i e)
    | c => c

end Slot

/-- Reads what a key leads to. -/
def Key.read (c : Value) : Key → Except String Value
  | .field name => member c name
  | .index i => elementOf c i

/-- Reads along a path. -/
def readPath (c : Value) : List Key → Except String Value
  | [] => .ok c
  | k :: rest => do readPath (← k.read c) rest

lemma length_padded (items : List Value) (n : Nat) :
    (padded items n).length = max items.length n := by
  rw [padded, List.length_append, List.length_replicate]
  omega

/-- Behind the old end there is nil. -/
lemma getElem?_padded (items : List Value) {n j : Nat} (hj : j < n) :
    (padded items n)[j]? = some (items[j]?.getD .nil) := by
  rw [padded]
  by_cases hold : j < items.length
  · rw [List.getElem?_append_left hold, List.getElem?_eq_getElem hold, Option.getD_some]
  · rw [List.getElem?_append_right (Nat.not_lt.1 hold), List.getElem?_replicate, if_pos (by omega),
      List.getElem?_eq_none (Nat.not_lt.1 hold), Option.getD_none]

/-- What is read at another position does not change. -/
lemma getD_set_padded (items : List Value) (e : Value) {i j : Nat} (hne : i ≠ j) :
    ((padded items (i + 1)).set i e)[j]?.getD .nil = items[j]?.getD .nil := by
  rw [List.getElem?_set_ne hne]
  by_cases hj : j < i + 1
  · rw [getElem?_padded items hj, Option.getD_some]
  · have hsame : (padded items (i + 1))[j]? = items[j]? := by
      rw [padded]
      by_cases hold : j < items.length
      · rw [List.getElem?_append_left hold]
      · rw [List.getElem?_append_right (Nat.not_lt.1 hold), List.getElem?_replicate,
          if_neg (by omega), List.getElem?_eq_none (Nat.not_lt.1 hold)]
    rw [hsame]

namespace Key

lemma slot?_eq_field_iff {name : String} :
    k.slot? = some (.field name) ↔ k = .field name ∨ k = .index (.str name) := by
  cases k with
  | field name' => simp [slot?]
  | index i => cases i <;> simp [slot?]

lemma slot?_eq_item_iff {i : Nat} :
    k.slot? = some (.item i) ↔ ∃ x, k = .index (.number x) ∧ position? x = some i := by
  cases k with
  | field name' => simp [slot?]
  | index i => cases i <;> simp [slot?]

end Key

namespace Slot

variable {slot : Slot}

/-- A slot that fits is read by the keys that lead to it. -/
lemma read_of_fits (hk : k.slot? = some slot) (hfits : slot.Fits c) :
    k.read c = .ok (slot.get c) := by
  cases slot with
  | field name =>
    obtain ⟨fields, rfl⟩ := hfits
    rcases Key.slot?_eq_field_iff.1 hk with rfl | rfl <;> rfl
  | item i =>
    obtain ⟨items, rfl, -⟩ := hfits
    obtain ⟨x, rfl, hx⟩ := Key.slot?_eq_item_iff.1 hk
    simp only [Key.read, elementOf, hx, Option.bind_some, get]

lemma get_put (hfits : slot.Fits c) : slot.get (slot.put c e) = e := by
  cases slot with
  | field name =>
    obtain ⟨fields, rfl⟩ := hfits
    show (Keyed.get? name (Keyed.put name e fields)).getD .nil = e
    rw [Keyed.get?_put_self, Option.getD_some]
  | item i =>
    obtain ⟨items, rfl, -⟩ := hfits
    show ((padded items (i + 1)).set i e)[i]?.getD .nil = e
    rw [List.getElem?_set_self (by rw [length_padded]; omega), Option.getD_some]

lemma fits_put (hfits : slot.Fits c) : slot.Fits (slot.put c e) := by
  cases slot with
  | field name =>
    obtain ⟨fields, rfl⟩ := hfits
    exact ⟨_, rfl⟩
  | item i =>
    obtain ⟨items, rfl, -⟩ := hfits
    refine ⟨_, rfl, ?_⟩
    rw [List.length_set, length_padded]
    omega

end Slot

/-- The second key leads elsewhere than the first, and not to the length of an array. -/
def Key.Apart (k k' : Key) : Prop :=
  k.slot? ≠ k'.slot? ∧ ¬ ((∃ i, k.slot? = some (.item i)) ∧ k' = .field "length")

/-- Putting something into one slot changes nothing that is read elsewhere. -/
lemma Key.Apart.read_put {slot : Slot} (hk : k.slot? = some slot) (hfits : slot.Fits c)
    (h : k.Apart k') : k'.read (slot.put c e) = k'.read c := by
  obtain ⟨hslots, hlength⟩ := h
  rw [hk] at hslots
  cases slot with
  | field name =>
    obtain ⟨fields, rfl⟩ := hfits
    have hmember : ∀ name', k'.slot? = some (.field name') →
        member (.object (Keyed.put name e fields)) name' = member (.object fields) name' := by
      intro name' hk'
      have hne : name' ≠ name := by
        rintro rfl
        exact hslots hk'.symm
      rw [member, member, Keyed.get?_put_of_ne hne]
    match k' with
    | .field name' => exact hmember name' rfl
    | .index (.str name') => exact hmember name' rfl
    | .index .nil | .index (.bool _) | .index (.number _) | .index (.array _)
    | .index (.object _) | .index (.function _ _) | .index (.builtin _) => rfl
  | item i =>
    obtain ⟨items, rfl, -⟩ := hfits
    match k' with
    | .field name' =>
      have hname : name' ≠ "length" := by
        rintro rfl
        exact hlength ⟨⟨i, hk⟩, rfl⟩
      simp only [Slot.put, Key.read, member, if_neg hname]
    | .index (.number x) =>
      match hx : position? x with
      | none => simp only [Slot.put, Key.read, elementOf, hx, Option.bind_none]
      | some j =>
        have hne : i ≠ j := by
          rintro rfl
          exact hslots (by rw [Key.slot?, hx, Option.map_some])
        simp only [Slot.put, Key.read, elementOf, hx, Option.bind_some, getD_set_padded items e hne]
    | .index .nil | .index (.bool _) | .index (.str _) | .index (.array _)
    | .index (.object _) | .index (.function _ _) | .index (.builtin _) => rfl

/-! ### Setting the element at the end of a path -/

/-- Where the key leads to a slot that fits, what it holds is set further down and put back. -/
lemma setPath_of_fits {slot : Slot} (hk : k.slot? = some slot) (hfits : slot.Fits c) :
    setPath c (k :: rest) v = (setPath (slot.get c) rest v).map fun e => slot.put c e := by
  cases slot with
  | field name =>
    obtain ⟨fields, rfl⟩ := hfits
    rcases Key.slot?_eq_field_iff.1 hk with rfl | rfl
    · rw [setPath]
      rfl
    · rw [setPath]
      rfl
  | item i =>
    obtain ⟨items, rfl, hgap⟩ := hfits
    obtain ⟨x, rfl, hx⟩ := Key.slot?_eq_item_iff.1 hk
    have hfilter : (position? x).filter (fun i => i ≤ items.length + maxGap) = some i := by
      rw [hx, Option.filter_some, if_pos (decide_eq_true hgap)]
    have hitem : (padded items (i + 1))[i]?.getD .nil = items[i]?.getD .nil := by
      rw [getElem?_padded items (Nat.lt_succ_self i), Option.getD_some]
    simp only [setPath, hfilter, hitem]
    rfl

/-- Otherwise nothing is set. -/
lemma setPath_of_misfit (h : ∀ slot, k.slot? = some slot → ¬ slot.Fits c) :
    ∃ message, setPath c (k :: rest) v = .error message := by
  cases hset : setPath c (k :: rest) v with
  | error message => exact ⟨message, rfl⟩
  | ok c' =>
    -- Each case in which something is set has a slot that fits.
    exfalso
    unfold setPath at hset
    dsimp only at hset
    split at hset
    · next fields name => exact h (.field name) rfl ⟨fields, rfl⟩
    · next fields name => exact h (.field name) rfl ⟨fields, rfl⟩
    · next items x =>
      have hfilter : (position? x).filter (fun i => i ≤ items.length + maxGap) = none := by
        rw [Option.filter_eq_none_iff]
        intro i hi hgap
        have hk : (Key.index (.number x)).slot? = some (.item i) :=
          Key.slot?_eq_item_iff.2 ⟨x, rfl, hi⟩
        exact h (.item i) hk ⟨items, rfl, of_decide_eq_true hgap⟩
      rw [hfilter] at hset
      cases hset
    · cases hset

/-- Setting an element under a key, taken apart. -/
theorem setPath_cons_iff : setPath c (k :: rest) v = .ok c' ↔
    ∃ slot e, k.slot? = some slot ∧ slot.Fits c ∧ setPath (slot.get c) rest v = .ok e ∧
      c' = slot.put c e := by
  by_cases hfits : ∃ slot, k.slot? = some slot ∧ slot.Fits c
  · obtain ⟨slot, hk, hfits⟩ := hfits
    rw [setPath_of_fits hk hfits]
    constructor
    · intro h
      cases hinner : setPath (slot.get c) rest v with
      | error message =>
        rw [hinner] at h
        cases h
      | ok e =>
        rw [hinner] at h
        cases h
        exact ⟨slot, e, hk, hfits, hinner, rfl⟩
    · rintro ⟨slot', e, hk', -, hinner, rfl⟩
      obtain rfl : slot = slot' := Option.some.inj (hk.symm.trans hk')
      rw [hinner]
      rfl
  · have hmisfit : ∀ slot, k.slot? = some slot → ¬ slot.Fits c :=
      fun slot hk hslot => hfits ⟨slot, hk, hslot⟩
    obtain ⟨message, hmessage⟩ : ∃ message, setPath c (k :: rest) v = .error message :=
      setPath_of_misfit hmisfit
    rw [hmessage]
    constructor
    · intro h
      cases h
    · rintro ⟨slot, -, hk, hslot, -⟩
      exact absurd hslot (hmisfit slot hk)

/-- Whether the keys of a path lead from slot to slot that fits. -/
def Assignable : Value → List Key → Prop
  | _, [] => True
  | c, k :: rest => ∃ slot : Slot, k.slot? = some slot ∧ slot.Fits c ∧ Assignable (slot.get c) rest

/-- An element can be set just when all keys lead to slots that fit. -/
theorem exists_setPath_iff : (∃ c', setPath c path v = .ok c') ↔ Assignable c path := by
  induction path generalizing c with
  | nil => exact ⟨fun _ => trivial, fun _ => ⟨v, by rw [setPath]⟩⟩
  | cons k rest ih =>
    rw [Assignable]
    constructor
    · rintro ⟨c', h⟩
      obtain ⟨slot, e, hk, hfits, hinner, -⟩ := setPath_cons_iff.1 h
      exact ⟨slot, hk, hfits, ih.1 ⟨e, hinner⟩⟩
    · rintro ⟨slot, hk, hfits, hrest⟩
      obtain ⟨e, hinner⟩ := ih.2 hrest
      exact ⟨_, setPath_cons_iff.2 ⟨slot, e, hk, hfits, hinner, rfl⟩⟩

/-! ### Reading after setting -/

lemma readPath_cons {slot : Slot} (hk : k.slot? = some slot) (hfits : slot.Fits c) :
    readPath c (k :: rest) = readPath (slot.get c) rest := by
  rw [readPath, Slot.read_of_fits hk hfits]
  rfl

/-- Setting goes down to any part of the path, and reading that part shows what it did there. -/
theorem setPath_append (h : setPath c (pre ++ rest) v = .ok c') :
    ∃ inner inner', readPath c pre = .ok inner ∧ setPath inner rest v = .ok inner' ∧
      readPath c' pre = .ok inner' := by
  induction pre generalizing c c' with
  | nil => exact ⟨c, c', rfl, h, rfl⟩
  | cons k pre ih =>
    obtain ⟨slot, e, hk, hfits, hinner, rfl⟩ := setPath_cons_iff.1 h
    obtain ⟨inner, inner', hbefore, hset, hafter⟩ := ih hinner
    refine ⟨inner, inner', (readPath_cons hk hfits).trans hbefore, hset, ?_⟩
    rw [readPath_cons hk (Slot.fits_put hfits), Slot.get_put hfits]
    exact hafter

/-- **What was set is read.** -/
theorem readPath_setPath (h : setPath c path v = .ok c') : readPath c' path = .ok v := by
  rw [← List.append_nil path] at h
  obtain ⟨inner, inner', -, hset, hafter⟩ := setPath_append h
  rw [setPath] at hset
  cases hset
  exact hafter

/-- The second path leaves the first at some key. -/
inductive Diverge : List Key → List Key → Prop where
  | here {k k' : Key} {path q : List Key} (h : k.Apart k') : Diverge (k :: path) (k' :: q)
  | further {k k' : Key} {path q : List Key} (h : k.slot? = k'.slot?) (hrest : Diverge path q) :
    Diverge (k :: path) (k' :: q)

/-- **What diverges is read as before.** -/
theorem readPath_of_diverge (h : setPath c path v = .ok c') (hq : Diverge path q) :
    readPath c' q = readPath c q := by
  induction hq generalizing c c' with
  | here hapart =>
    obtain ⟨slot, e, hk, hfits, -, rfl⟩ := setPath_cons_iff.1 h
    rw [readPath, readPath, hapart.read_put hk hfits]
  | further hslots _ ih =>
    obtain ⟨slot, e, hk, hfits, hinner, rfl⟩ := setPath_cons_iff.1 h
    have hk' := hslots.symm.trans hk
    rw [readPath_cons hk' (Slot.fits_put hfits), readPath_cons hk' hfits, Slot.get_put hfits]
    exact ih hinner

/-- **An array that the path goes through grows just as far as it must**, and what it gains in
front of the new item is nil. -/
theorem readPath_array_setPath {items : List Value} (h : setPath c (pre ++ k :: rest) v = .ok c')
    (hitems : readPath c pre = .ok (.array items)) :
    ∃ i items', k.slot? = some (.item i) ∧ readPath c' pre = .ok (.array items') ∧
      items'.length = max items.length (i + 1) ∧
      ∀ j, items.length ≤ j → j < i → items'[j]? = some .nil := by
  obtain ⟨inner, inner', hbefore, hset, hafter⟩ := setPath_append h
  obtain rfl : .array items = inner := Except.ok.inj (hitems.symm.trans hbefore)
  obtain ⟨slot, e, hk, hfits, -, rfl⟩ := setPath_cons_iff.1 hset
  match slot with
  | .field name =>
    obtain ⟨fields, hfields⟩ := hfits
    cases hfields
  | .item i =>
    refine ⟨i, _, hk, hafter, by rw [List.length_set, length_padded], fun j hend hj => ?_⟩
    rw [List.getElem?_set_ne (Nat.ne_of_gt hj), getElem?_padded items (by omega),
      List.getElem?_eq_none hend, Option.getD_none]

/-! ### Assignments -/

section

open Heap

variable {σ : Type} {m : Machine σ} {h : Heap} {frame place : FrameId} {name : String}

/-- The value of a name is that of the binding in its holder. -/
lemma Heap.lookup?_of_holder {b : Binding} (hplace : h.holder? frame name = some place)
    (hb : h.binding? place name = some b) : h.lookup? frame name = some b.value := by
  rw [lookup?, hplace, Option.bind_some, hb, Option.map_some]

/-- A name that is bound anew where it was bound keeps its holder. -/
lemma Heap.holder?_declare (hb : (h.binding? place name).isSome = true) (v : Value) :
    (h.declare place name v false).holder? frame name = h.holder? frame name := by
  have hchain : (h.declare place name v false).chain frame = h.chain frame := by
    rw [chain_eq, chain_eq, outerOf_declare]
  have hsame : (fun f => ((h.declare place name v false).binding? f name).isSome) =
      fun f => (h.binding? f name).isSome := by
    funext f
    by_cases hf : place = f
    · subst hf
      rw [isSome_binding_declare v false hb, hb]
    · rw [binding_declare_of_ne v false (.inl hf)]
  rw [holder?, holder?, hchain, hsame]

/-- The element is set in the value of the name, which is then assigned. -/
lemma assignPath_apply (hpath : path ≠ []) (m : Machine σ) (frame : FrameId) (name : String)
    (v : Value) :
    Exec.assignPath frame name path v m =
      match m.heap.lookup? frame name with
      | none => (.error (.thrown (name ++ " is not defined")), m)
      | some c =>
        match setPath c path v with
        | .error message => (.error (.thrown message), m)
        | .ok c' => Exec.assign frame name c' m := by
  have hnot : path.isEmpty = false := by simpa using hpath
  unfold Exec.assignPath
  rw [hnot]
  show (match m.heap.lookup? frame name with
    | none => (Exec.throw (name ++ " is not defined") : Exec σ Unit)
    | some c => Exec.ofExcept (setPath c path v) >>= Exec.assign frame name) m = _
  cases m.heap.lookup? frame name with
  | none => rfl
  | some c =>
    show (Exec.ofExcept (setPath c path v) >>= Exec.assign frame name) m = _
    dsimp only
    cases setPath c path v with
    | error message => rfl
    | ok c' => rfl

/-- Where the name is bound and no constant, it is bound anew. -/
lemma assignPath_of_binding (hpath : path ≠ []) (hplace : m.heap.holder? frame name = some place)
    (hb : m.heap.binding? place name = some ⟨c, false⟩) (hset : setPath c path v = .ok c') :
    Exec.assignPath frame name path v m =
      (.value (), m.mapHeap (·.declare place name c' false)) := by
  have hassignee : m.heap.assignee? frame name = some place := by
    rw [assignee?, hplace]
    dsimp only
    rw [hb, Option.any_some, if_neg Bool.false_ne_true]
  have hknown : m.noteUnbound frame name = m := by
    rw [Machine.noteUnbound, hplace]
    rfl
  rw [assignPath_apply hpath, lookup?_of_holder hplace hb]
  dsimp only
  rw [hset]
  dsimp only
  rw [Exec.assign, hassignee]
  dsimp only
  rw [hknown]

/-- An assignment to an element either fails and changes nothing or has an element to set. -/
theorem assignPath_cases (hpath : path ≠ []) (m : Machine σ) (frame : FrameId) (name : String)
    (v : Value) :
    (∃ message, Exec.assignPath frame name path v m = (.error (.thrown message), m)) ∨
      ∃ place c c', m.heap.holder? frame name = some place ∧
        m.heap.binding? place name = some ⟨c, false⟩ ∧ setPath c path v = .ok c' := by
  rw [assignPath_apply hpath]
  cases hplace : m.heap.holder? frame name with
  | none =>
    rw [lookup?, hplace]
    exact .inl ⟨_, rfl⟩
  | some place =>
    obtain ⟨-, ⟨c, constant⟩, hb⟩ := binding_of_holder hplace
    rw [lookup?_of_holder hplace hb]
    dsimp only
    cases hset : setPath c path v with
    | error message => exact .inl ⟨message, rfl⟩
    | ok c' =>
      cases constant with
      | false => exact .inr ⟨place, c, c', rfl, hb, hset⟩
      | true =>
        have hassignee : m.heap.assignee? frame name = none := by
          rw [assignee?, hplace]
          dsimp only
          rw [hb, Option.any_some, if_pos rfl]
        dsimp only
        rw [Exec.assign, hassignee]
        exact .inl ⟨_, rfl⟩

/-- **Assignments to elements are exact.** An assignment to the element at the end of a path
succeeds just when the nearest binding of the name is no constant and each key leads to a slot that
fits; otherwise it fails and nothing has changed at all. When it succeeds, that binding is the only
one that has changed: along the path the new value reads the assigned one, along a path that
diverges what the old value read, and each array on the way has grown just as far as it must, with
nil in front of the new item. -/
theorem element_assignment_exact (hpath : path ≠ []) (m : Machine σ) (frame : FrameId)
    (name : String) (v : Value) :
    ((Exec.assignPath frame name path v m).1 = .value () ↔
      ∃ place c, m.heap.holder? frame name = some place ∧
        m.heap.binding? place name = some ⟨c, false⟩ ∧ Assignable c path) ∧
    ((Exec.assignPath frame name path v m).1 ≠ .value () →
      ∃ message, Exec.assignPath frame name path v m = (.error (.thrown message), m)) ∧
    ∀ m', Exec.assignPath frame name path v m = (.value (), m') →
      ∃ place c c', m.heap.holder? frame name = some place ∧
        m'.heap.holder? frame name = some place ∧
        m' = m.mapHeap (·.declare place name c' false) ∧
        m.heap.binding? place name = some ⟨c, false⟩ ∧
        m'.heap.binding? place name = some ⟨c', false⟩ ∧
        (∀ f n, f ≠ place ∨ n ≠ name → m'.heap.binding? f n = m.heap.binding? f n) ∧
        readPath c' path = .ok v ∧
        (∀ q, Diverge path q → readPath c' q = readPath c q) ∧
        ∀ pre k rest items, path = pre ++ k :: rest → readPath c pre = .ok (.array items) →
          ∃ i items', k.slot? = some (.item i) ∧ readPath c' pre = .ok (.array items') ∧
            items'.length = max items.length (i + 1) ∧
            ∀ j, items.length ≤ j → j < i → items'[j]? = some .nil := by
  have hcases := assignPath_cases hpath m frame name v
  refine ⟨⟨fun hvalue => ?_, ?_⟩, fun hnot => ?_, fun m' hvalue => ?_⟩
  · rcases hcases with ⟨message, herror⟩ | ⟨place, c, c', hplace, hb, hset⟩
    · rw [herror] at hvalue
      cases hvalue
    · exact ⟨place, c, hplace, hb, exists_setPath_iff.1 ⟨c', hset⟩⟩
  · rintro ⟨place, c, hplace, hb, hassignable⟩
    obtain ⟨c', hset⟩ := exists_setPath_iff.2 hassignable
    rw [assignPath_of_binding hpath hplace hb hset]
  · rcases hcases with herror | ⟨place, c, c', hplace, hb, hset⟩
    · exact herror
    · rw [assignPath_of_binding hpath hplace hb hset] at hnot
      exact absurd rfl hnot
  · rcases hcases with ⟨message, herror⟩ | ⟨place, c, c', hplace, hb, hset⟩
    · rw [herror] at hvalue
      cases hvalue
    · rw [assignPath_of_binding hpath hplace hb hset] at hvalue
      cases hvalue
      refine ⟨place, c, c', hplace, ?_, rfl, hb, ?_, fun f n hne => ?_, readPath_setPath hset,
        fun q hq => readPath_of_diverge hset hq, fun pre k rest items he hitems => ?_⟩
      · exact (holder?_declare (by rw [hb]; rfl) c').trans hplace
      · exact binding_declare_self c' false (lt_size_of_binding hb)
      · exact binding_declare_of_ne c' false (hne.imp Ne.symm Ne.symm)
      · rw [he] at hset
        exact readPath_array_setPath hset hitems

/-- A block inside of the frame that binds an object with an array in it. -/
def shelf : Machine Unit where
  heap :=
    #[⟨[("shelf", ⟨.object [("books", .array [.str "a", .str "b"]), ("label", .str "c")], false⟩)],
      []⟩, ⟨[], [0]⟩]
  tasks := .builtin
  store := ()
  context := "note"

/-- Puts a book behind a gap. -/
def fourthBook : List Key :=
  [.field "books", .index (.number 3)]

theorem element_assignment_exact_fourthBook :
    (Exec.assignPath 1 "shelf" fourthBook (.str "d") shelf).1 = .value () ∧
      ∃ c' items', (Exec.assignPath 1 "shelf" fourthBook (.str "d") shelf).2.heap.binding? 0
          "shelf" = some ⟨c', false⟩ ∧
        readPath c' fourthBook = .ok (.str "d") ∧ readPath c' [.field "label"] = .ok (.str "c") ∧
        readPath c' [.field "books"] = .ok (.array items') ∧ items'.length = 4 ∧
        items'[2]? = some .nil := by
  have hpath : fourthBook ≠ [] := List.cons_ne_nil _ _
  obtain ⟨hiff, -, hlaws⟩ := element_assignment_exact hpath shelf 1 "shelf" (.str "d")
  have hassignable : Assignable
      (.object [("books", .array [.str "a", .str "b"]), ("label", .str "c")]) fourthBook :=
    ⟨.field "books", rfl, ⟨_, rfl⟩, .item 3, by decide +kernel, ⟨_, rfl, by decide⟩, trivial⟩
  have hvalue := hiff.2 ⟨0, _, rfl, rfl, hassignable⟩
  obtain ⟨place, c, c', hplace, -, -, hb, hb', -, hread, hapart, hgrown⟩ :=
    hlaws _ (Prod.ext hvalue rfl)
  cases hplace
  cases hb
  obtain ⟨i, items', hi, hitems', hlength, hnil⟩ := hgrown [.field "books"] _ [] _ rfl rfl
  have hthree : (Key.index (.number 3)).slot? = some (.item 3) := by decide +kernel
  cases hthree.symm.trans hi
  have hlabel : Diverge fourthBook [.field "label"] := .here ⟨by decide, by simp [Key.slot?]⟩
  exact ⟨hvalue, c', items', hb', hread, hapart _ hlabel, hitems', hlength,
    hnil 2 (by decide) (by decide)⟩

end

end ScriptedNotes.Run
