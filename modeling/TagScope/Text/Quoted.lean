/-
# Quoted text

A quoted text stands between two equal marks, `"` or `'`. Inside it a
backslash keeps the next character from closing the text: `close` finds the
end by that rule alone, and `decode` says what the characters between the
marks mean. `encode` writes a text so that it can be told from any other
value: the mark, the backslash and four controls are written with a backslash,
what is not printable by its code point, and all else as it is.

Key definitions: `Quoted.isMark`, `Quoted.close`, `Quoted.decode`, `Quoted.encode`.
Key theorem: `Quoted.close_eq_some`.
-/
import TagScope.Text.Printable

namespace TagScope
namespace Quoted

/-- The characters that open a quoted text. -/
def isMark (c : Char) : Bool := c = '"' || c = '\''

/-- From the character after the opening mark on: what is written up to the
closing mark, and what follows it; nothing if the text is not closed. -/
def close (mark : Char) : List Char → Option (List Char × List Char)
  | [] => none
  | c :: rest =>
    if c = mark then some ([], rest)
    else if c = '\\' then
      match rest with
      | [] => none
      | d :: rest => (close mark rest).map fun (body, after) => (c :: d :: body, after)
    else (close mark rest).map fun (body, after) => (c :: body, after)

/-- What is found is the text up to its closing mark. -/
theorem close_eq_some {mark : Char} {cs body after : List Char}
    (h : close mark cs = some (body, after)) : cs = body ++ mark :: after := by
  fun_induction close mark cs generalizing body after <;> simp_all <;> grind

/-- What a character means after a backslash. -/
def unescape : Char → Char
  | 'n' => '\n'
  | 't' => '\t'
  | 'r' => '\r'
  | '0' => '\x00'
  | c => c

/-- What the characters between the marks mean. A backslash with nothing
after it stands for itself. -/
def decode : List Char → List Char
  | [] => []
  | c :: rest =>
    if c = '\\' then
      match rest with
      | [] => [c]
      | d :: rest => unescape d :: decode rest
    else c :: decode rest

/-- A character by its code point. -/
def byCode (c : Char) : List Char :=
  ['\\', 'u', '\x7b'] ++ Nat.toDigits 16 c.toNat ++ ['\x7d']

/-- A character as it is written between two marks. -/
def escape (mark c : Char) : List Char :=
  if c = '\x00' then ['\\', '0']
  else if c = '\t' then ['\\', 't']
  else if c = '\n' then ['\\', 'n']
  else if c = '\r' then ['\\', 'r']
  else if c = '\\' || c = mark then ['\\', c]
  else if isPrintable c then [c]
  else byCode c

/-- A text between two marks. -/
def encode (mark : Char) (cs : List Char) : List Char :=
  mark :: cs.flatMap (escape mark) ++ [mark]

example : encode '"' "it's \"a\"\n".toList = "\"it's \\\"a\\\"\\n\"".toList := by decide +kernel
example : encode '\'' ['\u0301'] = "'\\u\x7b301\x7d'".toList := by decide +kernel

end Quoted

/-- A text as it is shown among other values: between double quotes. -/
def quoted (s : String) : String := String.ofList (Quoted.encode '"' s.toList)

end TagScope
