/-
# How a path can be spelled

The grammar of tags, apart from how a tag is read. A spelling is the text of a
path, a segment, an argument or an argument list, with everything the grammar
leaves open: which mark a text stands between, how a number is written, how
many blanks and commas separate two arguments. A tag is the spelling of a path
with white space around it.

The grammar does not bound how deep argument lists nest. `Path.nesting` counts
that on the path.

Key definitions: `Numeral.Proper`, `Quoted.Body`, `Path.Spelling`, `Path.TagSpelling`,
`Path.nesting`, `Path.IsReference`.
-/
import TagScope.Path.Parse

namespace TagScope

/-! ### Words -/

/-- A text of white space. -/
def Blanks (cs : List Char) : Prop := ∀ c ∈ cs, isBlank c = true

/-- A text of white space and commas. -/
def Separators (cs : List Char) : Prop := ∀ c ∈ cs, Token.isSeparator c = true

/-- A text of decimal digits. -/
def Digits (cs : List Char) : Prop := ∀ c ∈ cs, c.isDigit = true

/-- The text of a name. -/
structure IsName (cs : List Char) : Prop where
  nonempty : cs ≠ []
  chars : ∀ c ∈ cs, isNameChar c = true

/-- An exponent as the grammar has it: `e` or `E`, perhaps a sign, and digits. -/
structure Numeral.Exponent.Proper (e : Numeral.Exponent) : Prop where
  letter : e.letter = 'e' ∨ e.letter = 'E'
  sign : ∀ c ∈ e.sign, c = '-' ∨ c = '+'
  nonempty : e.digits ≠ []
  digits : Digits e.digits

/-- A number as the grammar has it: perhaps a sign, then digits with a point
before, between or behind them or none, then perhaps an exponent. -/
structure Numeral.Proper (n : Numeral) : Prop where
  sign : ∀ c ∈ n.sign, c = '-' ∨ c = '+'
  whole : Digits n.whole
  fraction : ∀ ds ∈ n.fraction, Digits ds
  nonempty : n.whole ≠ [] ∨ ∃ ds ∈ n.fraction, ds ≠ []
  exponent : ∀ e ∈ n.exponent, e.Proper

/-- What can stand between two marks, and the text that it means. The mark
does not stand there but behind a backslash. -/
inductive Quoted.Body (mark : Char) : List Char → List Char → Prop where
  | nil : Body mark [] []
  | plain {c : Char} {cs text : List Char} :
    c ≠ mark → c ≠ '\\' → Body mark cs text → Body mark (c :: cs) (c :: text)
  | escaped {c : Char} {cs text : List Char} :
    Body mark cs text → Body mark ('\\' :: c :: cs) (Quoted.unescape c :: text)

/-! ### References -/

/-- Whether the name of a reference can begin with this character: not with a
digit, which begins a number, nor with `-`. -/
def startsName (c : Char) : Bool := c = '_' || isAlphanumeric c && !c.isDigit

/-- Whether a path that begins with this segment can be an argument. Where
`array` has arguments, a list is read. -/
def Segment.CanLead (s : Segment) : Prop :=
  (∃ c cs, s.name.toList = c :: cs ∧ startsName c = true) ∧
  ¬ (s.isCall = true ∧ s.name.toList = Written.listWord)

/-- Whether a path can be an argument. -/
def Path.IsReference : Path → Prop
  | .current => True
  | .segments ss => ∀ s ∈ ss.head?, s.CanLead

/-! ### The grammar -/

mutual

/-- The text of a path: `.`, or segments with dots between them. -/
inductive Path.Spelling : List Char → Path → Prop where
  | current : Path.Spelling ['.'] .current
  | segments {cs : List Char} {ss : List Segment} :
    Segment.ChainSpelling cs ss → Path.Spelling cs (.segments ss)

/-- The text of one or more segments. -/
inductive Segment.ChainSpelling : List Char → List Segment → Prop where
  | last {cs : List Char} {s : Segment} :
    Segment.Spelling cs s → Segment.ChainSpelling cs [s]
  | dot {cs rest : List Char} {s : Segment} {ss : List Segment} :
    Segment.Spelling cs s → Segment.ChainSpelling rest ss →
    Segment.ChainSpelling (cs ++ '.' :: rest) (s :: ss)

/-- The text of a segment: a name, with arguments right behind it or without. -/
inductive Segment.Spelling : List Char → Segment → Prop where
  | bare {name : List Char} :
    IsName name → Segment.Spelling name (.bare (String.ofList name))
  | call {name inside : List Char} {args : List Arg} :
    IsName name → Arg.ListSpelling inside args →
    Segment.Spelling (name ++ '(' :: inside ++ [')']) (.call (String.ofList name) args)

/-- The text of an argument. -/
inductive Arg.Spelling : List Char → Arg → Prop where
  | text {mark : Char} {body text : List Char} :
    Quoted.isMark mark = true → Quoted.Body mark body text →
    Arg.Spelling (mark :: body ++ [mark]) (.literal (.text (String.ofList text)))
  | integer {n : Numeral} {i : Int64} :
    n.Proper → n.isDecimal = false → i.toInt = n.wholeValue →
    Arg.Spelling n.text (.literal (.int i))
  | decimal {n : Numeral} {x : Binary64} :
    n.Proper → n.isDecimal = true → Binary64.ofText? (String.ofList n.text) = some x →
    Arg.Spelling n.text (.literal (.float x))
  | list {gap inside : List Char} {items : List Arg} :
    Blanks gap → Arg.ListSpelling inside items →
    Arg.Spelling (Written.listWord ++ gap ++ '(' :: inside ++ [')']) (.list items)
  | reference {cs : List Char} {p : Path} :
    Path.Spelling cs p → p.IsReference → Arg.Spelling cs (.path p)

/-- The text of an argument list, without its parentheses. -/
inductive Arg.ListSpelling : List Char → List Arg → Prop where
  | none {gap : List Char} : Separators gap → Arg.ListSpelling gap []
  | some {gap cs rest : List Char} {a : Arg} {as : List Arg} :
    Separators gap → Arg.Spelling cs a → Arg.RestSpelling rest as →
    Arg.ListSpelling (gap ++ cs ++ rest) (a :: as)

/-- The text of an argument list behind one of its arguments: what separates
two arguments has a comma in it. -/
inductive Arg.RestSpelling : List Char → List Arg → Prop where
  | last {gap : List Char} : Separators gap → Arg.RestSpelling gap []
  | comma {gap cs rest : List Char} {a : Arg} {as : List Arg} :
    Separators gap → ',' ∈ gap → Arg.Spelling cs a → Arg.RestSpelling rest as →
    Arg.RestSpelling (gap ++ cs ++ rest) (a :: as)

end

/-- The text of a tag: a path with white space around it. -/
def Path.TagSpelling (cs : List Char) (p : Path) : Prop :=
  ∃ before core after, cs = before ++ core ++ after ∧ Blanks before ∧ Blanks after ∧
    Path.Spelling core p

/-! ### Nesting -/

mutual

/-- How deep argument lists nest in a path. -/
def Path.nesting : Path → Nat
  | .current => 0
  | .segments ss => Segment.nestingAll ss
termination_by structural p => p

/-- How deep argument lists nest in a segment. -/
def Segment.nesting : Segment → Nat
  | .bare _ => 0
  | .call _ args => Arg.nestingAll args + 1
termination_by structural s => s

/-- How deep argument lists nest in segments. -/
def Segment.nestingAll : List Segment → Nat
  | [] => 0
  | s :: ss => max (Segment.nesting s) (Segment.nestingAll ss)
termination_by structural ss => ss

/-- How deep argument lists nest in an argument. -/
def Arg.nesting : Arg → Nat
  | .literal _ => 0
  | .path p => Path.nesting p
  | .list items => Arg.nestingAll items + 1
termination_by structural a => a

/-- How deep argument lists nest in arguments. -/
def Arg.nestingAll : List Arg → Nat
  | [] => 0
  | a :: as => max (Arg.nesting a) (Arg.nestingAll as)
termination_by structural as => as

end

end TagScope
