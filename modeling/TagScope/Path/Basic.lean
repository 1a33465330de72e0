/-
# Paths

A tag that has been read. The path `.` stands for the innermost scope; any
other is a chain of segments, each the name of a member of what the segments
before it reach. A segment may carry arguments for a callable, and an argument
may again be a path.

Key definitions: `Path`, `Segment`, `Arg`, `Path.isSimple`, `Path.eqv`.
-/
import TagScope.Value.Equality

namespace TagScope

mutual

/-- A tag that has been read. -/
inductive Path where
  /-- The innermost scope itself. -/
  | current
  | segments (segments : List Segment)

/-- One step of a path. -/
inductive Segment where
  /-- A name without parentheses. -/
  | bare (name : String)
  /-- A name with arguments, which may be none. -/
  | call (name : String) (args : List Arg)

/-- An argument, as it is to be evaluated when the path is. -/
inductive Arg where
  | literal (v : Value)
  | path (p : Path)
  /-- A new list. -/
  | list (items : List Arg)

end

namespace Segment

/-- The member that is looked up. -/
def name : Segment → String
  | .bare name => name
  | .call name _ => name

/-- The arguments; none if there are no parentheses. -/
def args : Segment → List Arg
  | .bare _ => []
  | .call _ args => args

/-- Whether there are parentheses. -/
def isCall : Segment → Bool
  | .bare _ => false
  | .call _ _ => true

end Segment

namespace Path

/-- The segments; none for `.`. -/
def steps : Path → List Segment
  | .current => []
  | .segments ss => ss

/-- A single name. -/
def ofName (name : String) : Path := .segments [.bare name]

/-- Whether the path is a single name without parentheses. -/
def isSimple (p : Path) : Bool :=
  match p.steps with
  | [.bare _] => true
  | _ => false

end Path

mutual

/-- Whether two paths are equal, their literals as values. -/
def Path.eqv : Path → Path → Bool
  | .current, .current => true
  | .segments ss, .segments ts => Segment.eqvAll ss ts
  | _, _ => false
termination_by structural p => p

/-- Whether two segments are equal. -/
def Segment.eqv : Segment → Segment → Bool
  | .bare m, .bare n => m == n
  | .call m as, .call n bs => m == n && Arg.eqvAll as bs
  | _, _ => false
termination_by structural s => s

/-- Whether two lists of segments are equal one by one. -/
def Segment.eqvAll : List Segment → List Segment → Bool
  | [], [] => true
  | s :: ss, t :: ts => Segment.eqv s t && Segment.eqvAll ss ts
  | _, _ => false
termination_by structural ss => ss

/-- Whether two arguments are equal. -/
def Arg.eqv : Arg → Arg → Bool
  | .literal v, .literal w => v.eqv w
  | .path p, .path q => Path.eqv p q
  | .list as, .list bs => Arg.eqvAll as bs
  | _, _ => false
termination_by structural a => a

/-- Whether two lists of arguments are equal one by one. -/
def Arg.eqvAll : List Arg → List Arg → Bool
  | [], [] => true
  | a :: as, b :: bs => Arg.eqv a b && Arg.eqvAll as bs
  | _, _ => false
termination_by structural as => as

end

instance : BEq Path := ⟨Path.eqv⟩

end TagScope
