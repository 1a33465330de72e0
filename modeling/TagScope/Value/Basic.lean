/-
# Values

What a tag stands for, what a scope holds, and what a callable is given and
gives back. Lists, maps and records are shared rather than copied: each has an
`Identity`, under which two values can be the same one and not merely equal.

A record is an object of the host. Here it shows what can be asked of it
without running anything: which callables and properties it has, and what its
properties read as. A property may be there and read as nothing.

Key definitions: `Value`, `Record`, `Frame`, `Value.frame?`.
-/
import TagScope.Binary64.Layout
import TagScope.Entries

namespace TagScope

/-- What tells shared values apart. -/
abbrev Identity := Nat

mutual

/-- A value. -/
inductive Value where
  | null
  | bool (b : Bool)
  | int (i : Int64)
  | float (x : Binary64)
  | text (s : String)
  | list (identity : Identity) (items : List Value)
  | map (identity : Identity) (entries : List (String × Value))
  | record (r : Record)

/-- An object of the host, with its name as a type, the text that shows it, and
its members. The text is made when it is asked for: what the object shares with
others is written out in it each time, so it can be far larger than the object.

Which members there are and what the properties read as is fixed. A host is free to
answer that from a state of its own, which may change from one lookup to the next or
in a call. Such objects are not described here: only what a callable does can depend
on the state of the host. -/
structure Record where
  identity : Identity
  typeName : String
  inspected : Thunk String
  hasCallable : String → Bool
  hasProperty : String → Bool
  property : String → Option Value

end

/-- The name of a record whose host gives it none. -/
def Record.defaultTypeName : String := "record"

namespace Value

instance : Inhabited Value := ⟨.null⟩

/-- What stands for a name that is not found: the empty text. -/
def absent : Value := .text ""

/-- Whether a value stands for a name that is not found. -/
def isAbsent : Value → Bool
  | .text s => s.isEmpty
  | _ => false

/-- A value that may be missing: `null` if it is. -/
def ofOption {α : Type} (ofSome : α → Value) : Option α → Value
  | none => .null
  | some a => ofSome a

/-- A new map. -/
def mapOf (identity : Identity) (entries : List (String × Value)) : Value :=
  .map identity (Entries.ofList entries)

/-- Whether a section of this value is shown: not for `null`, `false`, the
empty text and the empty list. -/
def isTruthy : Value → Bool
  | .null => false
  | .bool b => b
  | .text s => !s.isEmpty
  | .list _ items => !items.isEmpty
  | _ => true

/-- The name of a value's kind. -/
def typeName : Value → String
  | .null => "null"
  | .bool _ => "bool"
  | .int _ => "int"
  | .float _ => "float"
  | .text _ => "string"
  | .list _ _ => "list"
  | .map _ _ => "map"
  | .record r => r.typeName

/-- The text, if the value is one. -/
def text? : Value → Option String
  | .text s => some s
  | _ => none

/-- The integer, if the value is one. -/
def int? : Value → Option Int64
  | .int i => some i
  | _ => none

/-- The entries, if the value is a map. -/
def entries? : Value → Option (Entries Value)
  | .map _ entries => some entries
  | _ => none

/-- The items, if the value is a list. -/
def items? : Value → Option (List Value)
  | .list _ items => some items
  | _ => none

end Value

/-- A value as a scope in which names are looked up. -/
inductive Frame where
  /-- By key. -/
  | mapping (entries : Entries Value)
  /-- By index. -/
  | sequence (items : List Value)
  /-- By member: callables, then properties. -/
  | record (r : Record)

/-- A value as a scope. The others show no names. -/
def Value.frame? : Value → Option Frame
  | .map _ entries => some (.mapping entries)
  | .list _ items => some (.sequence items)
  | .record r => some (.record r)
  | _ => none

end TagScope
