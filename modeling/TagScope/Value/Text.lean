/-
# Values as text

`render` is what a value becomes in the output, where `null` and what was not
found are empty, a list is its items with commas, and a map or a record only
tells its kind. `inspect` shows a value as what it is, so that values of
different kinds look different.

Key definitions: `Value.render`, `Value.inspect`, `Frame.inspect`.
-/
import TagScope.Text.Quoted
import TagScope.Value.Basic

namespace TagScope

/-- An integer as text. -/
def intText (i : Int64) : String := toString i.toInt

/-- Texts between brackets, with commas. -/
def bracketed (parts : List String) : String := "[" ++ String.intercalate ", " parts ++ "]"

/-- Texts between braces, with commas. -/
def braced (parts : List String) : String := "\x7b" ++ String.intercalate ", " parts ++ "\x7d"

namespace Value

mutual

/-- A value in the output. -/
def render : Value → String
  | .null => ""
  | .bool b => if b then "true" else "false"
  | .int i => intText i
  | .float x => x.display
  | .text s => s
  | .list _ items => String.intercalate "," (renderItems items)
  | .map _ _ => "[map]"
  | .record r => "[" ++ r.typeName ++ "]"
termination_by structural v => v

/-- Each value in the output. -/
def renderItems : List Value → List String
  | [] => []
  | v :: vs => render v :: renderItems vs
termination_by structural vs => vs

end

mutual

/-- A value shown as what it is. -/
def inspect : Value → String
  | .null => "Null"
  | .bool b => if b then "true" else "false"
  | .int i => intText i
  | .float x => x.inspect
  | .text s => quoted s
  | .list _ items => bracketed (inspectItems items)
  | .map _ entries => braced (inspectEntries entries)
  | .record r => r.inspected.get
termination_by structural v => v

/-- Each value shown as what it is. -/
def inspectItems : List Value → List String
  | [] => []
  | v :: vs => inspect v :: inspectItems vs
termination_by structural vs => vs

/-- Each entry with its key quoted. -/
def inspectEntries : List (String × Value) → List String
  | [] => []
  | (key, v) :: rest => (quoted key ++ ": " ++ inspect v) :: inspectEntries rest
termination_by structural es => es

end

end Value

/-- The text between parentheses, behind a name. -/
def tagged (name content : String) : String := name ++ "(" ++ content ++ ")"

/-- A scope shown as what it is. -/
def Frame.inspect : Frame → String
  | .mapping entries => tagged "Mapping" (braced (Value.inspectEntries entries))
  | .sequence items => tagged "Sequence" (bracketed (Value.inspectItems items))
  | .record r => tagged "Record" r.inspected.get

end TagScope
