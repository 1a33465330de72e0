/-
# Scope stacks

The scopes that are visible where a tag stands. A scope is entered when a
section or an iteration opens and left when it closes; names are looked up from
the innermost outwards. A stack also carries the limit up to which lookups
may nest.

A stack is a value. One that is derived for a nested rendering begins as the
stack it is derived from, and what is done to it leaves the other alone. What
all of them share, the count of lookups in progress, belongs to the session.

Key definitions: `Stack`, `Stack.push`, `Stack.pop`, `Stack.inspect`.
-/
import TagScope.Value.Text

namespace TagScope

/-- The scopes, innermost first, and how deep lookups may nest. -/
structure Stack where
  frames : List Value := []
  maxDepth : UInt64 := 64

namespace Stack

/-- Enters a scope. -/
def push (stack : Stack) (scope : Value) : Stack := { stack with frames := scope :: stack.frames }

/-- Leaves the innermost scope and gives it back, if there is one. -/
def pop (stack : Stack) : Option Value × Stack :=
  (stack.frames.head?, { stack with frames := stack.frames.tail })

/-- The innermost scope. -/
def innermost? (stack : Stack) : Option Value := stack.frames.head?

/-- The number of scopes. -/
def size (stack : Stack) : Nat := stack.frames.length

/-- Whether no scope has been entered. -/
def isEmpty (stack : Stack) : Bool := stack.frames.isEmpty

/-- The scopes, outermost first. -/
def scopes (stack : Stack) : List Value := stack.frames.reverse

/-- A stack with another limit. -/
def withMaxDepth (stack : Stack) (maxDepth : UInt64) : Stack := { stack with maxDepth }

/-- A stack shown as what it is, while `depth` lookups are in progress. -/
def inspect (stack : Stack) (depth : Nat) : String :=
  "ContextStack \x7b frames: " ++ bracketed (Value.inspectItems stack.scopes)
    ++ ", options: ResolveOptions \x7b max_depth: " ++ toString stack.maxDepth.toNat
    ++ " \x7d, depth: Cell \x7b value: " ++ toString depth ++ " \x7d \x7d"

end Stack

end TagScope
