/-
# Objects

An object is a record put together from properties and methods. A member that
is added again replaces the one of its name, and keeps its place.

Key definitions: `Method`, `Object`, `Object.toRecord`, `Object.call`.
-/
import TagScope.Lookup.Routine

namespace TagScope

/-- What a method does with its arguments, where its tag stands. -/
abbrev Method (σ : Type) := List Value → Stack → Routine σ

/-- A record put together from its members. -/
structure Object (σ : Type) where
  typeName? : Option String := none
  properties : Entries Value := []
  methods : Entries (Method σ) := []

namespace Object

variable {σ : Type}

/-- The object under another name as a type. -/
def withTypeName (o : Object σ) (name : String) : Object σ := { o with typeName? := some name }

/-- The object with one more property. -/
def withProperty (o : Object σ) (name : String) (v : Value) : Object σ :=
  { o with properties := o.properties.put name v }

/-- The object with one more method. -/
def withMethod (o : Object σ) (name : String) (m : Method σ) : Object σ :=
  { o with methods := o.methods.put name m }

/-- The name of an object as a type. -/
def typeName (o : Object σ) : String := o.typeName?.getD "object"

/-- An object shown as what it is: its properties and the names of its methods. -/
def inspect (o : Object σ) : String :=
  let members := o.properties.map (fun (name, v) => name ++ ": " ++ v.inspect)
    ++ o.methods.map fun (name, _) => name ++ ": <callable>"
  if members.isEmpty then o.typeName
  else o.typeName ++ " \x7b " ++ String.intercalate ", " members ++ " \x7d"

/-- The object as a record. -/
def toRecord (o : Object σ) (identity : Identity) : Record where
  identity
  typeName := o.typeName
  inspected := .mk fun _ => o.inspect
  hasCallable := o.methods.has
  hasProperty := o.properties.has
  property := fun name => o.properties.lookup name

/-- Calls a method. -/
def call (o : Object σ) (name : String) : Method σ :=
  match o.methods.lookup name with
  | some m => m
  | none => fun _ _ => .fail (.plain (o.typeName ++ " has no callable `" ++ name ++ "`"))

end Object

end TagScope
