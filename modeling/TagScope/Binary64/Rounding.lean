/-
# Rounding to binary64

The number nearest to a quotient of naturals, and of two nearest the one with
the even mantissa. Counted in units a quotient that lies in the binade of scale
`s` is rounded to a multiple of `2 ^ s`; the rank of the result is the multiple
plus `s` times `2 ^ 52`, also when rounding carries into the next binade. What
rounds past the last rank is infinite.

Key definitions: `Binary64.ofRatio`, `Binary64.ofDecimal`.
-/
import TagScope.Binary64.Basic

namespace TagScope

/-- The natural number nearest to `num / den`, of two the even one. -/
def roundHalfEven (num den : Nat) : Nat :=
  let down := num / den
  let twice := 2 * (num % den)
  if den < twice || (den = twice && down % 2 = 1) then down + 1 else down

namespace Binary64

/-- The scale of the binade that holds so many units. -/
def scaleOf (units : Nat) : Nat := units.log2 - 52

/-- The finite number of this rank, or the infinity beyond the last. -/
def ofRank (negative : Bool) (rank : Nat) : Binary64 :=
  if h : rank < rankLimit then .finite negative ⟨rank, h⟩ else .infinity negative

/-- The rank nearest to `num / den`, which may lie past the last. -/
def nearestRank (num den : Nat) : Nat :=
  let num := num * 2 ^ unitScale
  let scale := scaleOf (num / den)
  scale * 2 ^ 52 + roundHalfEven num (den * 2 ^ scale)

/-- The number nearest to `num / den` in magnitude, of the given sign. -/
def ofRatio (negative : Bool) (num den : Nat) : Binary64 :=
  ofRank negative (nearestRank num den)

/-- Decimals from `10 ^ decimalLimit` on are infinite, and those up to
`10 ^ -decimalLimit` are zero. -/
abbrev decimalLimit : Nat := 400

/-- The number nearest to `digits * 10 ^ exponent`. Exponents far out of range
are answered from the size of the number alone. -/
def ofDecimal (negative : Bool) (digits : Nat) (exponent : Int) : Binary64 :=
  if digits = 0 then zero negative
  else
    let size := exponent + (Nat.toDigits 10 digits).length
    if (decimalLimit : Int) < size then .infinity negative
    else if size < -(decimalLimit : Int) then zero negative
    else if 0 ≤ exponent then ofRatio negative (digits * 10 ^ exponent.toNat) 1
    else ofRatio negative digits (10 ^ (-exponent).toNat)

example : ofDecimal false 1 0 = .finite false ⟨1023 * 2 ^ 52, by decide⟩ := by decide +kernel
example : ofDecimal false 5 (-324) = .finite false ⟨1, by decide⟩ := by decide +kernel
example : ofDecimal true 2 (-324) = zero true := by decide +kernel
example : ofDecimal false 17976931348623157 292 = .finite false ⟨rankLimit - 1, by decide⟩ := by
  decide +kernel
example : ofDecimal false 18 307 = .infinity false := by decide +kernel

end Binary64

end TagScope
