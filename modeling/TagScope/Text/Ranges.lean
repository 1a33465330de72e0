/-
# Sets of characters given by ranges

A class of characters is written as an increasing list of closed ranges of
code points, and a character belongs to it when one of the ranges holds it.

Key definitions: `Ranges`, `Ranges.holds`, `Ranges.increasing`.
Key theorems: `Ranges.holds_eq_any`.
-/

namespace TagScope

/-- Closed ranges of code points, in increasing order. -/
abbrev Ranges := List (Nat × Nat)

namespace Ranges

/-- Whether one of the ranges holds `code`. The search ends at the first
range that begins after it. -/
def holds (code : Nat) : Ranges → Bool
  | [] => false
  | (low, high) :: rest => if code < low then false else code ≤ high || holds code rest

/-- Whether the ranges follow one another: each is not empty, and begins
after the one before it ends. -/
def increasing : Ranges → Bool
  | [] => true
  | [(low, high)] => low ≤ high
  | (low, high) :: (low', high') :: rest =>
    low ≤ high && high < low' && increasing ((low', high') :: rest)

/-- Increasing ranges hold nothing that comes before the first. -/
theorem any_eq_false_of_lt : ∀ {rs : Ranges} {low high code : Nat},
    increasing ((low, high) :: rs) → code < low →
    ((low, high) :: rs).any (fun r => r.1 ≤ code && code ≤ r.2) = false
  | [], low, high, code, _, h => by grind
  | (low', high') :: rs, low, high, code, hi, h => by
    simp only [increasing, Bool.and_eq_true, decide_eq_true_eq] at hi
    rw [List.any_cons, any_eq_false_of_lt hi.2 (by omega)]
    grind

/-- Stopping early loses nothing: the search is membership in some range. -/
theorem holds_eq_any : ∀ {rs : Ranges} (code : Nat), increasing rs →
    holds code rs = rs.any fun r => r.1 ≤ code && code ≤ r.2
  | [], _, _ => rfl
  | [(low, high)], code, _ => by grind [holds]
  | (low, high) :: (low', high') :: rs, code, hi => by
    by_cases h : code < low
    · rw [any_eq_false_of_lt hi h, holds, if_pos h]
    · simp only [increasing, Bool.and_eq_true] at hi
      rw [List.any_cons, ← holds_eq_any code hi.2, holds, if_neg h,
        decide_eq_true (Nat.le_of_not_lt h), Bool.true_and]

end Ranges

end TagScope
