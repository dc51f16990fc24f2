/-!
JSON values. Whole numbers of the 64-bit range are kept exactly; every other number is the nearest
float.
-/

namespace ScriptedNotes

inductive Json where
  | null
  | bool (b : Bool)
  | whole (n : Int)
  | real (x : Float)
  | string (s : String)
  /-- A string that escapes one half of a surrogate pair: it can be passed over but has no text. -/
  | unreadable
  | array (items : List Json)
  | object (fields : List (String × Json))
  deriving Inhabited

namespace Json

/-- The field of an object; of two with one name the later counts. -/
def field? (name : String) : Json → Option Json
  | .object fields => (fields.reverse.find? (·.1 == name)).map (·.2)
  | _ => none

end Json

end ScriptedNotes
