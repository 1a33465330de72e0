/-
# Places in a text

A place in a text is counted in bytes of its UTF-8 form, whatever the text is
held as, so that a tool that shows the text can point at it.

Key definitions: `width`, `Span`.
-/
namespace TagScope

/-- The number of bytes that characters take in UTF-8. -/
def width : List Char → Nat
  | [] => 0
  | c :: cs => c.utf8Size + width cs

@[simp] theorem width_nil : width [] = 0 := rfl

@[simp] theorem width_cons (c : Char) (cs : List Char) :
    width (c :: cs) = c.utf8Size + width cs := rfl

@[simp] theorem width_append (cs ds : List Char) : width (cs ++ ds) = width cs + width ds := by
  induction cs with
  | nil => exact (Nat.zero_add _).symm
  | cons c cs ih => rw [List.cons_append, width_cons, width_cons, ih, Nat.add_assoc]

/-- The bytes of a text from `start` up to `stop`, which is not included. -/
structure Span where
  start : Nat
  stop : Nat
  deriving DecidableEq, Repr, Inhabited

namespace Span

/-- The span that begins at `start` and covers `cs`. -/
def covering (start : Nat) (cs : List Char) : Span := ⟨start, start + width cs⟩

/-- The span of one character at `start`. -/
def char (start : Nat) (c : Char) : Span := covering start [c]

/-- The empty span at `start`. -/
def empty (start : Nat) : Span := ⟨start, start⟩

/-- The same span when `offset` bytes are put before the text. -/
def shift (offset : Nat) (s : Span) : Span := ⟨s.start + offset, s.stop + offset⟩

end Span

end TagScope
