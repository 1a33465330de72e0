/-
# Failed lookups

A lookup fails when its tag is malformed, when lookups are nested too deep, or
when a callable fails. A callable may fail with a failure of a lookup it made
itself; that one is passed on as it is. Any other failure is told together
with the name of the callable, once.

Key definitions: `LookupError`, `Failure`, `Failure.escape`.
-/
import TagScope.SyntaxError

namespace TagScope

mutual

/-- Why a lookup has no answer. A name that is not found is no error. -/
inductive LookupError where
  /-- The tag is malformed. -/
  | malformed (e : SyntaxError)
  /-- More lookups and calls are in progress than the stack allows. -/
  | depthExceeded (limit : UInt64)
  /-- A callable failed. -/
  | callFailed (member : String) (source : Failure)

/-- What a callable fails with. -/
inductive Failure where
  | plain (message : String)
  /-- A text that the callable read itself is malformed. -/
  | malformed (e : SyntaxError)
  /-- A lookup that the callable made failed. -/
  | lookup (e : LookupError)

end

namespace LookupError

/-- What is wrong, in one line. -/
def message : LookupError → String
  | .malformed e => e.message
  | .depthExceeded limit => "resolution nested deeper than " ++ toString limit.toNat ++ " levels"
  | .callFailed member _ => "callable `" ++ member ++ "` failed"

/-- What to do about it, if anything is known. -/
def help? : LookupError → Option String
  | .malformed e => some e.help
  | .depthExceeded _ => some ("a callable is probably resolving itself; "
      ++ "raise `ResolveOptions::max_depth` if the nesting is intended")
  | .callFailed _ _ => none

/-- The name under which an error is filed. -/
def code : LookupError → String
  | .malformed _ => SyntaxError.code
  | .depthExceeded _ => "stache::depth"
  | .callFailed _ _ => "stache::call"

end LookupError

namespace Failure

/-- What is wrong, in one line. -/
def message : Failure → String
  | .plain message => message
  | .malformed e => e.message
  | .lookup e => e.message

/-- The failure of a callable, as an error of the lookup that called it. -/
def escape (member : String) : Failure → LookupError
  | .lookup e => e
  | failure => .callFailed member failure

end Failure

end TagScope
