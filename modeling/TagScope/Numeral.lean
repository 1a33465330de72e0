/-
# Written numbers

A number is written as an optional sign, digits, an optional fraction and an
optional exponent. There must be a digit before the exponent; the point may
stand first or last. A number with a point or an exponent is a decimal, any
other an integer. Exponents are read up to a limit that only numbers of more
than `2 ^ 16` digits can make up for.

Key definitions: `Numeral`, `Numeral.scan?`, `Numeral.toInt64?`, `Numeral.toBinary64`,
`Binary64.ofText?`.
Key theorems: `Numeral.eq_text_of_scan?`, `Numeral.Exponent.magnitude_eq`.
-/
import TagScope.Binary64.Rounding

namespace TagScope

/-- The part of a numeral from its `e` on. -/
structure Numeral.Exponent where
  letter : Char
  sign : Option Char
  digits : List Char
  deriving DecidableEq, Repr

/-- A number as it is written. -/
structure Numeral where
  sign : Option Char
  whole : List Char
  fraction : Option (List Char)
  exponent : Option Numeral.Exponent
  deriving DecidableEq, Repr

namespace Numeral

/-- The characters of an exponent. -/
def Exponent.text (e : Exponent) : List Char := e.letter :: e.sign.toList ++ e.digits

/-- The characters of a numeral. -/
def text (n : Numeral) : List Char :=
  n.sign.toList ++ n.whole ++ (n.fraction.elim [] ('.' :: ·)) ++ n.exponent.elim [] Exponent.text

/-- Whether the number is written with a point or an exponent. -/
def isDecimal (n : Numeral) : Bool := n.fraction.isSome || n.exponent.isSome

/-- The sign that a text begins with, and the rest. -/
def scanSign : List Char → Option Char × List Char
  | '-' :: cs => (some '-', cs)
  | '+' :: cs => (some '+', cs)
  | cs => (none, cs)

/-- The digits that a text begins with, and the rest. -/
def scanDigits (cs : List Char) : List Char × List Char :=
  (cs.takeWhile Char.isDigit, cs.dropWhile Char.isDigit)

/-- The point and the digits after it, if there is a point, and the rest. -/
def scanFraction : List Char → Option (List Char) × List Char
  | '.' :: cs => ((scanDigits cs).map some id)
  | cs => (none, cs)

/-- The exponent, if there is one with a digit, and the rest. -/
def scanExponent (cs : List Char) : Option Exponent × List Char :=
  match cs with
  | [] => (none, cs)
  | letter :: rest =>
    if letter = 'e' || letter = 'E' then
      let (sign, rest) := scanSign rest
      let (digits, rest) := scanDigits rest
      if digits.isEmpty then (none, cs) else (some ⟨letter, sign, digits⟩, rest)
    else (none, cs)

/-- The longest numeral that a text begins with, and the rest. -/
def scan? (cs : List Char) : Option (Numeral × List Char) :=
  let (sign, cs) := scanSign cs
  let (whole, cs) := scanDigits cs
  let (fraction, cs) := scanFraction cs
  if whole.isEmpty && (fraction.getD []).isEmpty then none
  else
    let (exponent, cs) := scanExponent cs
    some (⟨sign, whole, fraction, exponent⟩, cs)

theorem scanSign_append (cs : List Char) :
    (scanSign cs).1.toList ++ (scanSign cs).2 = cs := by
  unfold scanSign
  split <;> rfl

theorem scanDigits_append (cs : List Char) : (scanDigits cs).1 ++ (scanDigits cs).2 = cs :=
  List.takeWhile_append_dropWhile

theorem scanFraction_append (cs : List Char) :
    (scanFraction cs).1.elim [] ('.' :: ·) ++ (scanFraction cs).2 = cs := by
  unfold scanFraction
  split
  · simp [Prod.map, scanDigits_append]
  · rfl

theorem scanExponent_append (cs : List Char) :
    (scanExponent cs).1.elim [] Exponent.text ++ (scanExponent cs).2 = cs := by
  unfold scanExponent
  split
  · rfl
  · rename_i letter rest
    split
    · dsimp only
      split
      · rfl
      · simp [Exponent.text, scanDigits_append, scanSign_append]
    · rfl

/-- A numeral is found with nothing lost. -/
theorem eq_text_of_scan? {cs rest : List Char} {n : Numeral} (h : scan? cs = some (n, rest)) :
    cs = n.text ++ rest := by
  simp only [scan?, Option.ite_none_left_eq_some, Option.some.injEq, Prod.mk.injEq] at h
  obtain ⟨-, rfl, rfl⟩ := h
  simp [text, scanExponent_append, scanFraction_append, scanDigits_append, scanSign_append]

/-- Whether the numeral begins with a minus. -/
def isNegative (n : Numeral) : Bool := n.sign = some '-'

/-- An exponent that has reached this is not read any further. -/
abbrev exponentLimit : Nat := 2 ^ 16

/-- The digits of an exponent read one after the other, from the value `n` of
those before them. -/
def readExponent (n : Nat) (digits : List Char) : Nat :=
  digits.foldl (fun n d => if n < exponentLimit then 10 * n + (d.toNat - '0'.toNat) else n) n

/-- The value of the digits of an exponent. -/
def Exponent.magnitude (e : Exponent) : Nat := readExponent 0 e.digits

theorem readExponent_eq : ∀ (digits : List Char) (n : Nat),
    Nat.ofDigitChars 10 digits n < exponentLimit →
    readExponent n digits = Nat.ofDigitChars 10 digits n ∧ n ≤ Nat.ofDigitChars 10 digits n
  | [], _, _ => ⟨rfl, Nat.le_refl _⟩
  | d :: ds, n, h => by
    rw [Nat.ofDigitChars_cons] at h ⊢
    have ⟨hr, hle⟩ := readExponent_eq ds _ h
    have hn : n < exponentLimit := by omega
    refine ⟨?_, by omega⟩
    rw [← hr, readExponent, List.foldl_cons, if_pos hn]
    rfl

/-- An exponent below the limit is read in full. -/
theorem Exponent.magnitude_eq {e : Exponent}
    (h : Nat.ofDigitChars 10 e.digits 0 < exponentLimit) :
    e.magnitude = Nat.ofDigitChars 10 e.digits 0 := (readExponent_eq e.digits 0 h).1

/-- The value of an exponent. -/
def Exponent.value (e : Exponent) : Int :=
  if e.sign = some '-' then -(e.magnitude : Int) else e.magnitude

/-- The value of the digits before the point. -/
def wholeValue (n : Numeral) : Int :=
  let magnitude : Int := Nat.ofDigitChars 10 n.whole 0
  if n.isNegative then -magnitude else magnitude

/-- The value of an integer, if it fits in 64 bits. -/
def toInt64? (n : Numeral) : Option Int64 :=
  if -2 ^ 63 ≤ n.wholeValue ∧ n.wholeValue < 2 ^ 63 then some (Int64.ofInt n.wholeValue) else none

/-- The binary64 number nearest to the value of a numeral. -/
def toBinary64 (n : Numeral) : Binary64 :=
  let fraction := n.fraction.getD []
  Binary64.ofDecimal n.isNegative (Nat.ofDigitChars 10 (n.whole ++ fraction) 0)
    (n.exponent.elim 0 Exponent.value - fraction.length)

example : (scan? "-1.5e+2x".toList).map (fun r => (r.1.text, r.1.isDecimal, r.2)) =
    some ("-1.5e+2".toList, true, ['x']) := by decide +kernel
example : (scan? "7e".toList).map (·.2) = some ['e'] := by decide +kernel
example : scan? "-.".toList = none ∧ scan? "e5".toList = none := by decide +kernel

end Numeral

/-- The binary64 number of this name, with a sign before it or not: one of the
three that are not finite. -/
def Binary64.ofName? (cs : List Char) : Option Binary64 :=
  let (sign, name) := Numeral.scanSign cs
  let name := String.ofList (name.map Char.toLower)
  if name = "nan" then some .nan
  else if name = "inf" ∨ name = "infinity" then some (.infinity (sign = some '-'))
  else none

/-- Reads a binary64 number: a numeral, or a name. -/
def Binary64.ofText? (s : String) : Option Binary64 :=
  match Numeral.scan? s.toList with
  | some (n, []) => some n.toBinary64
  | _ => ofName? s.toList

example : Binary64.ofText? "NaN" = some .nan ∧ Binary64.ofText? "-inf" = some (.infinity true) ∧
    Binary64.ofText? "1e" = none := by decide +kernel

end TagScope
