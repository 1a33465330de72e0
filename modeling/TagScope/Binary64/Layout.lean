/-
# Writing binary64 numbers

A number is written with its shortest digits, and a layout says where the
point goes. Two layouts are in use. `display` is for output: never an exponent
and no fraction where there is none. `inspect` is for showing a value as what
it is: a whole number keeps `.0`, and a number that is very large or very
small is written with an exponent.

Key definitions: `Binary64.Layout`, `Binary64.write`, `Binary64.display`, `Binary64.inspect`.
-/
import TagScope.Binary64.Shortest

namespace TagScope
namespace Binary64

/-- How a number is laid out: for which positions of the point it is written
without an exponent, and whether a whole number is marked by `.0`. -/
structure Layout where
  positional : Int → Bool
  marksWhole : Bool

/-- The digits with the point after the first `point` of them, zeros filling
in on either side. -/
def Layout.place (l : Layout) (digits : List Char) (point : Int) : List Char :=
  if point ≤ 0 then '0' :: '.' :: List.replicate (-point).toNat '0' ++ digits
  else
    let before := digits.take point.toNat
    let after := digits.drop point.toNat
    if after.isEmpty then
      before ++ List.replicate (point.toNat - digits.length) '0'
        ++ (if l.marksWhole then ['.', '0'] else [])
    else before ++ '.' :: after

/-- The digits with the point after the first and the power of ten behind. -/
def Layout.raise (digits : List Char) (point : Int) : List Char :=
  let fraction := digits.drop 1
  digits.take 1 ++ (if fraction.isEmpty then [] else '.' :: fraction)
    ++ 'e' :: (toString (point - 1)).toList

/-- A finite magnitude. -/
def Layout.magnitude (l : Layout) (rank : Fin rankLimit) : List Char :=
  if rank.val = 0 then '0' :: (if l.marksWhole then ['.', '0'] else [])
  else
    let d := shortest rank
    if l.positional d.point then l.place d.digitText d.point else Layout.raise d.digitText d.point

/-- A number in a layout. -/
def write (l : Layout) : Binary64 → List Char
  | .nan => "NaN".toList
  | .infinity negative => if negative then "-inf".toList else "inf".toList
  | .finite negative rank => (if negative then ['-'] else []) ++ l.magnitude rank

/-- The layout of output. -/
def displayLayout : Layout := ⟨fun _ => true, false⟩

/-- The layout of a number shown as what it is: positional from `1e-4` up to
`1e16`, which is not included. -/
def inspectLayout : Layout := ⟨fun point => -3 ≤ point && point ≤ 16, true⟩

/-- A number as output. -/
def display (x : Binary64) : String := String.ofList (write displayLayout x)

/-- A number shown as what it is. -/
def inspect (x : Binary64) : String := String.ofList (write inspectLayout x)

example : inspect (ofDecimal false 15 (-1)) = "1.5" := by decide +kernel
example : inspect (ofDecimal false 1 16) = "1e16" := by decide +kernel
example : inspect (ofDecimal true 0 0) = "-0.0" ∧ display (ofDecimal true 0 0) = "-0" := by
  decide +kernel
example : inspect (ofDecimal false 15 (-6)) = "1.5e-5" := by decide +kernel
example : display (ofDecimal false 1 (-5)) = "0.00001" := by decide +kernel
example : inspect (ofDecimal false 5 (-324)) = "5e-324" := by decide +kernel

end Binary64

end TagScope
