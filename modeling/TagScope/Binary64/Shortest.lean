/-
# The shortest decimal of a binary64 number

A decimal stands for a number when it reads back as it. Among the decimals
that do, the shortest have the fewest digits, and of those the nearest to the
number is chosen; a tie goes to the larger magnitude. Only the two neighbours
of the number among the decimals of a length can be nearest, so the search
looks at those for one digit, two digits and so on.

Key definitions: `Decimal`, `Binary64.shortest`.
-/
import TagScope.Binary64.Rounding

namespace TagScope

/-- The magnitude `digits * 10 ^ exponent`. -/
structure Decimal where
  digits : Nat
  exponent : Int
  deriving DecidableEq, Repr

namespace Decimal

/-- The digits as they are written, without the zeros at the end. -/
def digitText (d : Decimal) : List Char :=
  ((Nat.toDigits 10 d.digits).reverse.dropWhile (· = '0')).reverse

/-- How many of the written digits stand before the point. -/
def point (d : Decimal) : Int := d.exponent + (Nat.toDigits 10 d.digits).length

end Decimal

namespace Binary64

/-- The two neighbours of `num / den` among the multiples of `10 ^ exponent`,
the nearer first. -/
def neighbours (num den : Nat) (exponent : Int) : List Decimal :=
  let num := num * 10 ^ (-exponent).toNat
  let den := den * 10 ^ exponent.toNat
  let down : Decimal := ⟨num / den, exponent⟩
  let up : Decimal := ⟨num / den + 1, exponent⟩
  if den ≤ 2 * (num % den) then [up, down] else [down, up]

/-- The number of digits of `num / den` before the point. Below one it is
minus the number of zeros that follow the point. -/
def magnitude (num den : Nat) : Int :=
  (Nat.toDigits 10 (num * 10 ^ decimalLimit / den)).length - decimalLimit

/-- Whether a decimal reads back as the finite number of this rank. -/
def readsAs (rank : Fin rankLimit) (d : Decimal) : Bool :=
  ofDecimal false d.digits d.exponent = .finite false rank

/-- No number needs more digits than this to be told from the others. -/
abbrev maxDigits : Nat := 17

/-- The shortest decimal that reads back as the finite magnitude of this rank.
The exact value, which always reads back, ends the search. -/
def shortest (rank : Fin rankLimit) : Decimal :=
  if rank.val = 0 then ⟨0, 0⟩
  else
    let num := units rank
    let den := 2 ^ unitScale
    let size := magnitude num den
    let candidates := (List.range maxDigits).flatMap fun (n : Nat) =>
      neighbours num den (size - (n + 1))
    match candidates.find? (readsAs rank) with
    | some d => d
    | none => ⟨num * 5 ^ unitScale, -(unitScale : Int)⟩

end Binary64

end TagScope
