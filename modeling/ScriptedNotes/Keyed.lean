/-!
Tables with a text as key, kept in the order of their keys: the fields of an object, the bindings of
a frame, the registered tasks. Each key stands once, so a table is determined by what it answers.
-/

namespace ScriptedNotes

/-- Entries in increasing order of their keys. -/
abbrev Keyed (α : Type) := List (String × α)

namespace Keyed

variable {α β : Type}

/-- The entry of a key. -/
def get? (key : String) : Keyed α → Option α
  | [] => none
  | (k, a) :: rest => if k = key then some a else get? key rest

/-- Sets the entry of a key, in its place. -/
def put (key : String) (value : α) : Keyed α → Keyed α
  | [] => [(key, value)]
  | (k, a) :: rest =>
    if k = key then (key, value) :: rest
    else if key < k then (key, value) :: (k, a) :: rest
    else (k, a) :: put key value rest

/-- The table without the entry of a key. -/
def erase (key : String) (table : Keyed α) : Keyed α :=
  table.filter fun (k, _) => k ≠ key

def keys (table : Keyed α) : List String :=
  table.map (·.1)

/-- The table of a list of entries; of two with one key the later counts. -/
def ofList (entries : List (String × α)) : Keyed α :=
  entries.foldl (fun table (k, a) => put k a table) []

theorem get?_put_self (key : String) (value : α) (table : Keyed α) :
    get? key (put key value table) = some value := by
  induction table with
  | nil => simp [put, get?]
  | cons entry rest ih =>
    obtain ⟨k, a⟩ := entry
    by_cases hk : k = key
    · simp [put, get?, hk]
    · by_cases hl : key < k
      · simp [put, get?, hk, hl]
      · simp [put, get?, hk, hl, ih]

theorem get?_put_of_ne {key other : String} (h : other ≠ key) (value : α) (table : Keyed α) :
    get? other (put key value table) = get? other table := by
  induction table with
  | nil => simp [put, get?, Ne.symm h]
  | cons entry rest ih =>
    obtain ⟨k, a⟩ := entry
    by_cases hk : k = key
    · subst hk; simp [put, get?, Ne.symm h]
    · by_cases hl : key < k
      · simp [put, get?, hk, hl, Ne.symm h]
      · simp [put, get?, hk, hl, ih]

end Keyed

end ScriptedNotes
