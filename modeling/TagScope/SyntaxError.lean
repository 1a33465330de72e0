/-
# Malformed tags

What can be wrong with the text of a tag or of an argument list, and where. A
`Fault` is met while a part of a text is read, with its place counted in the
whole text; a `SyntaxError` is a fault together with that text.

Key definitions: `SyntaxError.Cause`, `Fault`, `SyntaxError`.
-/
import TagScope.Text.Span
import TagScope.Text.Quoted

namespace TagScope

/-- What is wrong with a text. -/
inductive SyntaxError.Cause where
  /-- Nothing but white space. -/
  | emptyPath
  /-- Two dots in a row, or a dot at the end. -/
  | emptySegment
  /-- A dot at the start with more behind it. -/
  | misplacedDot
  /-- A character that cannot stand here. -/
  | unexpectedChar (c : Char)
  /-- A quoted text without its closing mark. -/
  | unterminatedString
  /-- A `(` without its `)`. -/
  | unclosedParen
  /-- A `)` without its `(`. -/
  | unmatchedParen
  /-- Something other than a comma behind a complete argument. -/
  | expectedSeparator
  /-- An integer that does not fit. -/
  | invalidNumber
  /-- Argument lists nested deeper than is read. -/
  | tooDeep
  deriving DecidableEq, Repr

/-- What is wrong, in one line. -/
def SyntaxError.Cause.message : SyntaxError.Cause → String
  | .emptyPath => "empty path"
  | .emptySegment => "empty path segment"
  | .misplacedDot => "`.` must be the whole path"
  | .unexpectedChar c => "unexpected character " ++ String.ofList (Quoted.encode '\'' [c])
  | .unterminatedString => "unterminated string literal"
  | .unclosedParen => "unclosed `(`"
  | .unmatchedParen => "unmatched `)`"
  | .expectedSeparator => "expected `,` between arguments"
  | .invalidNumber => "invalid number literal"
  | .tooDeep => "arguments nested too deeply"

/-- What to do about it. -/
def SyntaxError.Cause.help : SyntaxError.Cause → String
  | .emptyPath => "a tag needs a name, or `.` for the current context"
  | .emptySegment => "every `.` must be followed by a name"
  | .misplacedDot => "`.` alone means the current context; it cannot be combined with names"
  | .unexpectedChar _ => "names are made of letters, digits, `_` and `-`"
  | .unterminatedString => "close the string with the quote it was opened with"
  | .unclosedParen => "add `)` to close the argument list"
  | .unmatchedParen => "remove the `)` or add the `(` it belongs to"
  | .expectedSeparator => "separate arguments with `,`"
  | .invalidNumber => "integers must fit in 64 bits"
  | .tooDeep => "flatten the nested calls"

/-- Something wrong at a place in a text. -/
structure Fault where
  cause : SyntaxError.Cause
  span : Span
  deriving DecidableEq, Repr

/-- The same fault when `offset` bytes are put before the text. -/
def Fault.shift (offset : Nat) (f : Fault) : Fault := { f with span := f.span.shift offset }

/-- A fault and the text that it points into. -/
structure SyntaxError where
  cause : SyntaxError.Cause
  span : Span
  source : String
  deriving DecidableEq, Repr

namespace SyntaxError

/-- What is wrong, in one line. -/
def message (e : SyntaxError) : String := e.cause.message

/-- What to do about it. -/
def help (e : SyntaxError) : String := e.cause.help

/-- The name under which all errors of this kind are filed. -/
def code : String := "stache::syntax"

end SyntaxError

/-- A fault in `source`. -/
def Fault.within (source : String) (f : Fault) : SyntaxError := ⟨f.cause, f.span, source⟩

end TagScope
