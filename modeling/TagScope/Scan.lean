/-
# Scans

A text is read in two passes. A scan cuts it into items without looking into
them and stops at the first fault; then the items found are read in order. The
fault of the scan counts only if every item before it can be read, so that of
several faults in a text the first one is told.

Key definitions: `Scan`, `Scan.toExcept`, `Scan.traverse`.
-/
import TagScope.SyntaxError

namespace TagScope

/-- The items that a text holds, up to the first fault if there is one. -/
structure Scan (α : Type) where
  items : List α
  fault : Option Fault
  deriving Repr

namespace Scan

variable {α β : Type}

/-- Nothing more to find. -/
def done : Scan α := ⟨[], none⟩

/-- Nothing can be found for a fault. -/
def failed (f : Fault) : Scan α := ⟨[], some f⟩

/-- One item before all others. -/
def cons (a : α) (s : Scan α) : Scan α := ⟨a :: s.items, s.fault⟩

/-- All items, if there is no fault. -/
def toExcept (s : Scan α) : Except Fault (List α) :=
  match s.fault with
  | none => .ok s.items
  | some f => .error f

/-- Each item read by `f`, up to what fails first: the reading of an item, or
the scan itself behind the last item. -/
def traverse (f : α → Except Fault β) (s : Scan α) : Except Fault (List β) := do
  let read ← s.items.mapM f
  match s.fault with
  | none => .ok read
  | some fault => .error fault

end Scan

end TagScope
