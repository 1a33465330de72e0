/-
# Reading tags

A tag is a path: `.` alone, or segments with dots between them, where a
segment is a name and may have an argument list in parentheses right behind
it. White space may surround the whole. The text of an argument list is cut
into arguments first, and a reference among them is read as a path by the same
rules. Argument lists nest at most `maxNesting` deep.

Reading is local: an argument is read from its own characters and the place
where they begin. Places only turn up in faults.

Key definitions: `RawSegment`, `RawSegment.scan`, `Path.read`, `Arg.readList`, `Path.parse`.
-/
import TagScope.Argument.Token
import TagScope.Path.Basic

namespace TagScope

/-- Whether a name can hold this character. -/
def isNameChar (c : Char) : Bool := isAlphanumeric c || c = '_' || c = '-'

/-- A segment whose arguments have not been read: where it begins, its name,
and what its parentheses hold if it has any. -/
structure RawSegment where
  start : Nat
  name : List Char
  inside : Option (List Char)
  deriving DecidableEq, Repr

namespace RawSegment

/-- The characters of a segment. -/
def text (s : RawSegment) : List Char := s.name ++ s.inside.elim [] fun cs => '(' :: cs ++ [')']

/-- Where the parenthesis stands that opens the arguments. -/
def opened (s : RawSegment) : Nat := s.start + width s.name

/-- What is wrong where a name or a dot should stand. White space up to the
end of the path counts as its end. -/
def misplaced (pos : Nat) (cs : List Char) : Fault :=
  match cs with
  | [] => ⟨.emptySegment, .empty pos⟩
  | c :: _ =>
    if cs.all isBlank then ⟨.emptySegment, .empty pos⟩
    else if c = '.' then ⟨.emptySegment, .char pos c⟩
    else if c = ')' then ⟨.unmatchedParen, .char pos c⟩
    else ⟨.unexpectedChar c, .char pos c⟩

/-- The segment that begins the text, and what follows it. -/
def scanOne (pos : Nat) (cs : List Char) : Except Fault (RawSegment × List Char) :=
  let name := cs.takeWhile isNameChar
  if name.isEmpty then .error (misplaced pos cs)
  else
    let opened := pos + width name
    match cs.dropWhile isNameChar with
    | '(' :: inner =>
      (Nesting.close opened inner).map fun (inside, after) =>
        (⟨pos, name, some inside⟩, after)
    | after => .ok (⟨pos, name, none⟩, after)

/-- Nothing is lost: the segment and what follows it are the text. -/
theorem eq_text_of_scanOne {pos : Nat} {cs after : List Char} {s : RawSegment}
    (h : scanOne pos cs = .ok (s, after)) : cs = s.text ++ after := by
  have hcs : cs.takeWhile isNameChar ++ cs.dropWhile isNameChar = cs :=
    List.takeWhile_append_dropWhile
  unfold scanOne at h
  dsimp only at h
  split at h
  · simp at h
  · split at h
    · rename_i inner hd
      cases hc : Nesting.close (pos + width (cs.takeWhile isNameChar)) inner with
      | error => simp [hc, Except.map] at h
      | ok r =>
        simp only [hc, Except.map, Except.ok.injEq, Prod.mk.injEq] at h
        rw [hd, Nesting.eq_of_close hc] at hcs
        rw [← h.1, ← h.2]
        simpa [text] using hcs.symm
    · simp only [Except.ok.injEq, Prod.mk.injEq] at h
      rw [← h.1, ← h.2]
      simp [text, hcs]

/-- The segments of a path that begins at `pos`, up to the first fault. -/
def scan (pos : Nat) (cs : List Char) : Scan RawSegment :=
  match _h : scanOne pos cs with
  | .error fault => .failed fault
  | .ok (s, after) =>
    let stop := pos + width s.text
    match after with
    | [] => .cons s .done
    | c :: rest =>
      if (c :: rest).all isBlank then .cons s .done
      else if c = '.' then .cons s (scan (stop + 1) rest)
      else .cons s (.failed (misplaced stop (c :: rest)))
termination_by cs.length
decreasing_by
  have := congrArg List.length (eq_text_of_scanOne _h)
  simp only [List.length_append, List.length_cons] at this
  omega

section

variable {pos : Nat} {cs rest after : List Char} {s : RawSegment}

theorem scan_failed {fault : Fault} (h : scanOne pos cs = .error fault) :
    scan pos cs = .failed fault := by
  rw [scan]
  grind

theorem scan_last (h : scanOne pos cs = .ok (s, after)) (hb : after.all isBlank = true) :
    scan pos cs = .cons s .done := by
  rw [scan]
  grind

theorem scan_dot (h : scanOne pos cs = .ok (s, '.' :: rest)) :
    scan pos cs = .cons s (scan (pos + width s.text + 1) rest) := by
  have hb : ('.' :: rest).all isBlank = false := rfl
  rw [scan]
  grind

theorem scan_misplaced {c : Char} (h : scanOne pos cs = .ok (s, c :: rest))
    (hb : ¬ (c :: rest).all isBlank = true) (hc : c ≠ '.') :
    scan pos cs = .cons s (.failed (misplaced (pos + width s.text) (c :: rest))) := by
  rw [scan]
  grind

end

end RawSegment

/-- Reads the arguments of a segment, where `arguments` reads an argument list
from the place of its parenthesis and what it holds. -/
def Segment.read (arguments : Nat → List Char → Except Fault (List Arg)) (s : RawSegment) :
    Except Fault Segment :=
  let name := String.ofList s.name
  match s.inside with
  | none => .ok (.bare name)
  | some inside => (arguments s.opened inside).map (.call name)

/-- Reads the path that stands alone in a text, which begins at `pos`. -/
def Path.read (arguments : Nat → List Char → Except Fault (List Arg)) (pos : Nat)
    (cs : List Char) : Except Fault Path :=
  let start := pos + width (cs.takeWhile isBlank)
  match cs.dropWhile isBlank with
  | [] => .error ⟨.emptyPath, .covering pos cs⟩
  | c :: rest =>
    if c = '.' then
      if rest.all isBlank then .ok .current else .error ⟨.misplacedDot, .char start c⟩
    else ((RawSegment.scan start (c :: rest)).traverse (Segment.read arguments)).map .segments

/-- Reads one argument, where `arguments` reads the argument lists inside it. -/
def Arg.read (arguments : Nat → List Char → Except Fault (List Arg)) (t : Token) :
    Except Fault Arg :=
  match t.written with
  | .quoted _ body => .ok (.literal (.text (String.ofList (Quoted.decode body))))
  | .number n =>
    if n.isDecimal then .ok (.literal (.float n.toBinary64))
    else match n.toInt64? with
      | some i => .ok (.literal (.int i))
      | none => .error ⟨.invalidNumber, t.span⟩
  | .list gap inside => (arguments (Written.listOpened t.start gap) inside).map .list
  | .reference name => (Path.read arguments t.start name).map .path

/-- Reads an argument list, from the place of its parenthesis and what it
holds. `levels` more lists may be open at a time, this one included. -/
def Arg.readList : (levels : Nat) → (opened : Nat) → List Char → Except Fault (List Arg)
  | 0 => fun opened _ => .error ⟨.tooDeep, .char opened '('⟩
  | levels + 1 => fun opened inside =>
    (Token.scan (opened + 1) inside).traverse (Arg.read (Arg.readList levels))

namespace Path

/-- How deep argument lists nest in a tag. -/
def maxNesting : Nat := 32

/-- Reads a tag. -/
def parse (tag : String) : Except SyntaxError Path :=
  (Path.read (Arg.readList maxNesting) 0 tag.toList).mapError (Fault.within tag)

end Path

end TagScope
