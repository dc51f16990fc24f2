import ScriptedNotes.Run.Value

/-!
Variables. A frame holds the bindings of one block or call and knows the frames around it, the
nearest first; a frame with none around it is global. Names are looked up from the inside out.
-/

namespace ScriptedNotes.Run

structure Binding where
  value : Value
  constant : Bool

structure Frame where
  bindings : Keyed Binding := []
  /-- The frames around this one, the nearest first. -/
  outer : List FrameId := []

/-- All frames of a session; a frame is never taken away while it can be reached. -/
abbrev Heap := Array Frame

namespace Heap

/-- The binding of a name in one frame. -/
def binding? (h : Heap) (frame : FrameId) (name : String) : Option Binding :=
  h[frame]?.bind fun f => f.bindings.get? name

/-- The frames that can be seen from a frame, itself first. -/
def chain (h : Heap) (frame : FrameId) : List FrameId :=
  frame :: (h[frame]?.map (·.outer)).getD []

/-- The nearest frame that binds a name. -/
def holder? (h : Heap) (frame : FrameId) (name : String) : Option FrameId :=
  (h.chain frame).find? fun f => (h.binding? f name).isSome

/-- The value of a name. -/
def lookup? (h : Heap) (frame : FrameId) (name : String) : Option Value :=
  (h.holder? frame name).bind fun f => (h.binding? f name).map (·.value)

/-- The global frame around a frame. -/
def globalOf (h : Heap) (frame : FrameId) : FrameId :=
  (h.chain frame).getLastD frame

/-- Binds a name in a frame, in place of an earlier binding there. -/
def declare (h : Heap) (frame : FrameId) (name : String) (value : Value) (constant : Bool) : Heap :=
  h.modify frame fun f => { f with bindings := f.bindings.put name ⟨value, constant⟩ }

/-- The frame in which an assignment to a name takes place: the nearest that binds the name, or the
global one; there is none when the binding is constant. -/
def assignee? (h : Heap) (frame : FrameId) (name : String) : Option FrameId :=
  match h.holder? frame name with
  | some f => if (h.binding? f name).any (·.constant) then none else some f
  | none => some (h.globalOf frame)

/-- Adds a frame with the frames around it; it gets the number `h.size`. -/
def child (h : Heap) (outer : List FrameId) : Heap :=
  h.push { outer }

/-- Adds a global frame. -/
def root (h : Heap) : FrameId × Heap :=
  (h.size, h.push {})

end Heap

end ScriptedNotes.Run
