/-
# Paths as text

`render` writes a path as a tag: names with dots between them, arguments in
parentheses with a comma and a space between them, texts between double
quotes, lists as `array( ... )`. `inspect` shows how the path is built.

Key definitions: `Path.render`, `Path.inspect`.
-/
import TagScope.Path.Basic
import TagScope.Value.Text
import TagScope.Argument.Written

namespace TagScope

/-- A literal in a tag. -/
def Value.renderLiteral : Value → String
  | .text s => quoted s
  | .float x => x.inspect
  | v => v.render

/-- Texts in parentheses, with commas. -/
def parenthesised (parts : List String) : String := tagged "" (String.intercalate ", " parts)

mutual

/-- A path as a tag. -/
def Path.render : Path → String
  | .current => "."
  | .segments segments => String.intercalate "." (Segment.renderAll segments)
termination_by structural p => p

/-- A segment in a tag. -/
def Segment.render : Segment → String
  | .bare name => name
  | .call name args => name ++ parenthesised (Arg.renderAll args)
termination_by structural s => s

/-- Each segment in a tag. -/
def Segment.renderAll : List Segment → List String
  | [] => []
  | s :: ss => Segment.render s :: Segment.renderAll ss
termination_by structural ss => ss

/-- An argument in a tag. -/
def Arg.render : Arg → String
  | .literal v => v.renderLiteral
  | .path p => Path.render p
  | .list items => String.ofList Written.listWord ++ parenthesised (Arg.renderAll items)
termination_by structural a => a

/-- Each argument in a tag. -/
def Arg.renderAll : List Arg → List String
  | [] => []
  | a :: as => Arg.render a :: Arg.renderAll as
termination_by structural as => as

end

mutual

/-- How a path is built. -/
def Path.inspect : Path → String
  | .current => "Current"
  | .segments segments => tagged "Segments" (bracketed (Segment.inspectAll segments))
termination_by structural p => p

/-- How a segment is built. -/
def Segment.inspect : Segment → String
  | .bare name => "Segment \x7b name: " ++ quoted name ++ ", args: None \x7d"
  | .call name args => "Segment \x7b name: " ++ quoted name ++ ", args: "
      ++ tagged "Some" (bracketed (Arg.inspectAll args)) ++ " \x7d"
termination_by structural s => s

/-- How each segment is built. -/
def Segment.inspectAll : List Segment → List String
  | [] => []
  | s :: ss => Segment.inspect s :: Segment.inspectAll ss
termination_by structural ss => ss

/-- How an argument is built. -/
def Arg.inspect : Arg → String
  | .literal v => tagged "Literal" v.inspect
  | .path p => tagged "Path" (Path.inspect p)
  | .list items => tagged "List" (bracketed (Arg.inspectAll items))
termination_by structural a => a

/-- How each argument is built. -/
def Arg.inspectAll : List Arg → List String
  | [] => []
  | a :: as => Arg.inspect a :: Arg.inspectAll as
termination_by structural as => as

end

instance : ToString Path := ⟨Path.render⟩

end TagScope
