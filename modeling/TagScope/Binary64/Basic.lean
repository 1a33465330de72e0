/-
# Binary64 numbers

A binary64 number is not a number, an infinity, or finite. The finite ones of
one sign are counted upwards from zero: the `rank` of a number says how many
lie below it in magnitude. Equal steps of rank are equal steps of value within
a binade, and every binade from the second on doubles the step, so a rank
unfolds into a `mantissa` below `2 ^ 53` and a `scale`, and every magnitude is
a natural number of `units`, the smallest positive number being one.

Key definitions: `Binary64`, `Binary64.units`, `Binary64.eqv`.
Key theorems: `Binary64.eqv_comm`, `Binary64.eqv_trans`, `Binary64.eqv_self_iff`.
-/
namespace TagScope

-- Whatever is imported beside this, a power is the one of the number type, and not one that a
-- monoid brings with it.
attribute [instance (1100), default_instance 10001] instPowNat

/-- The number of finite magnitudes: 2047 exponents with `2 ^ 52` each. -/
abbrev Binary64.rankLimit : Nat := 2047 * 2 ^ 52

/-- A binary64 number. Zero has two signs; there is one `nan`. -/
inductive Binary64 where
  | nan
  | infinity (negative : Bool)
  | finite (negative : Bool) (rank : Fin Binary64.rankLimit)
  deriving DecidableEq, Repr

namespace Binary64

/-- Zero, of either sign. -/
def zero (negative : Bool) : Binary64 := .finite negative ⟨0, by decide⟩

instance : Inhabited Binary64 := ⟨zero false⟩

/-- How often the step has doubled at this rank. -/
def scale (rank : Nat) : Nat := rank / 2 ^ 52 - 1

/-- How many steps of its scale the magnitude of this rank is. -/
def mantissa (rank : Nat) : Nat := rank - scale rank * 2 ^ 52

/-- The magnitude of this rank, in units of the smallest positive number. -/
def units (rank : Nat) : Nat := mantissa rank * 2 ^ scale rank

/-- One unit is this power of two below one: the magnitude of a rank is
`units rank / 2 ^ unitScale`. -/
abbrev unitScale : Nat := 1074

example : units 1 = 1 ∧ units (2 ^ 52) = 2 ^ 52 ∧ units (1023 * 2 ^ 52) = 2 ^ unitScale := by
  decide +kernel

/-- Equality of values: the two zeros are equal, and `nan` equals nothing. -/
def eqv : Binary64 → Binary64 → Bool
  | .infinity s, .infinity t => s == t
  | .finite s m, .finite t n => m == n && (s == t || m.val == 0)
  | _, _ => false

theorem eqv_comm (x y : Binary64) : eqv x y = eqv y x := by
  cases x <;> cases y <;> simp only [eqv]
  · exact Bool.beq_comm
  · rename_i s m t n
    by_cases h : m = n
    · subst h; rw [Bool.beq_comm (a := s)]
    · rw [beq_false_of_ne h, beq_false_of_ne (Ne.symm h)]; rfl

theorem eqv_trans {x y z : Binary64} (h : eqv x y) (h' : eqv y z) : eqv x z := by
  cases x <;> cases y <;> cases z <;> simp_all [eqv]
  grind

/-- A number equals itself unless it is none. -/
theorem eqv_self_iff (x : Binary64) : eqv x x ↔ x ≠ .nan := by
  cases x <;> simp [eqv]

end Binary64

end TagScope
