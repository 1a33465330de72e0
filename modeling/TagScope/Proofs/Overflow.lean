/-
# Which numbers are too large

The numbers of a binade are equally far apart, and the last binade ends at
`2 ^ 1024`. A magnitude is rounded to a finite number as long as it lies below the
middle between the last number there and `2 ^ 1024`; in the middle the tie goes to
the even side, which is no number any more. So `2 ^ 1024 - 2 ^ 970` is the least
magnitude that becomes infinite (`Binary64.isFinite_ofDecimal_iff`).

For a numeral that is about its value as long as its exponent is read in full, or
so few digits stand before it that they cannot make up for the rest of it
(`Numeral.Legible`).

Key definitions: `Binary64.IsFinite`, `Binary64.overflow`, `Numeral.value`, `Numeral.Legible`.
Key theorems: `Binary64.nearestRank_lt_rankLimit_iff`, `Binary64.isFinite_ofDecimal_iff`,
`Numeral.isFinite_toBinary64_iff`.
-/
import Mathlib.Algebra.Order.Ring.Rat
import Mathlib.Data.Nat.Cast.Order.Ring
import Mathlib.Tactic.Ring
import TagScope.Proofs.Rereading

namespace TagScope

/-! ### Rounding past the last number -/

/-- A quotient is rounded to less than an even number exactly if it lies below the
middle between that number and the one before. -/
theorem roundHalfEven_lt_iff {num den k : Nat} (hd : 0 < den) (hk : k % 2 = 0) :
    roundHalfEven num den < k ↔ 2 * num + den < 2 * (k * den) := by
  have hsplit : den * (num / den) + num % den = num := Nat.div_add_mod num den
  have hrest : num % den < den := Nat.mod_lt _ hd
  unfold roundHalfEven
  generalize num / den = q at hsplit ⊢
  generalize num % den = r at hsplit hrest ⊢
  rcases Nat.lt_trichotomy (q + 1) k with hlt | rfl | hgt
  · have hbelow : (q + 2) * den ≤ k * den := Nat.mul_le_mul_right den hlt
    rw [Nat.add_mul, Nat.mul_comm q] at hbelow
    refine iff_of_true ?_ (by omega)
    dsimp only
    split <;> omega
  · have hodd : q % 2 = 1 := by omega
    have hmiddle : 2 * num + den < 2 * ((q + 1) * den) ↔ 2 * r < den := by
      rw [Nat.add_mul, Nat.mul_comm q]
      omega
    rw [hmiddle]
    simp only [hodd, decide_true, Bool.and_true, Bool.or_eq_true, decide_eq_true_eq]
    split <;> omega
  · have habove : k * den ≤ q * den := Nat.mul_le_mul_right den (by omega)
    rw [Nat.mul_comm q] at habove
    refine iff_of_false ?_ (by omega)
    dsimp only
    split <;> omega

namespace Binary64

/-- Whether a number is finite. -/
def IsFinite : Binary64 → Prop
  | .finite _ _ => True
  | _ => False

/-- The least magnitude that is rounded to an infinity. -/
def overflow : Nat := 2 ^ 1024 - 2 ^ 970

/-- **The last rank is passed** from the middle behind it on, which in units is
`2 ^ 2098 - 2 ^ 2044`. -/
theorem nearestRank_lt_rankLimit_iff {num den top : Nat} (hd : 0 < den) (htop : top = 2044) :
    nearestRank num den < rankLimit ↔ num * 2 ^ unitScale < (2 ^ 54 - 1) * (2 ^ top * den) := by
  rw [nearestRank]
  generalize num * 2 ^ unitScale = units
  have hlow : units / den ≠ 0 → 2 ^ (units / den).log2 * den ≤ units := fun h =>
    (Nat.le_div_iff_mul_le hd).1 (Nat.log2_self_le h)
  have hhigh : units < 2 ^ ((units / den).log2 + 1) * den :=
    (Nat.div_lt_iff_lt_mul hd).1 Nat.lt_log2_self
  unfold scaleOf rankLimit
  generalize hlog : (units / den).log2 = log at hlow hhigh ⊢
  have hpos : 0 < den * 2 ^ (log - 52) := Nat.mul_pos hd (Nat.pow_pos (by decide))
  rcases Nat.lt_trichotomy log (top + 53) with hlt | heq | hgt
  · -- in a binade further down
    have hbinade : units < 2 ^ 53 * (den * 2 ^ (log - 52)) := by
      calc units < 2 ^ (log + 1) * den := hhigh
        _ ≤ 2 ^ (53 + (log - 52)) * den :=
          Nat.mul_le_mul_right _ (Nat.pow_le_pow_right (by decide) (by omega))
        _ = 2 ^ 53 * (den * 2 ^ (log - 52)) := by rw [Nat.pow_add]; ring
    have hround := (@roundHalfEven_lt_iff units _ (2 ^ 53 + 2) hpos (by decide)).2 (by omega)
    have hbelow : units < 2 ^ 53 * (2 ^ top * den) := by
      calc units < 2 ^ (log + 1) * den := hhigh
        _ ≤ 2 ^ (53 + top) * den :=
          Nat.mul_le_mul_right _ (Nat.pow_le_pow_right (by decide) (by omega))
        _ = 2 ^ 53 * (2 ^ top * den) := by rw [Nat.pow_add, Nat.mul_assoc]
    exact iff_of_true (by omega) (by omega)
  · -- in the last binade
    have hscale : den * 2 ^ (log - 52) = 2 * (2 ^ top * den) := by
      rw [show log - 52 = top + 1 by omega, Nat.pow_succ]
      ring
    have hround := @roundHalfEven_lt_iff units _ (2 ^ 53) hpos (by decide)
    rw [hscale] at hround ⊢
    omega
  · -- past the last binade
    have hbinade : 2 ^ 52 * (den * 2 ^ (log - 52)) = 2 ^ log * den := by
      rw [show 2 ^ log = 2 ^ (52 + (log - 52)) by rw [show 52 + (log - 52) = log by omega],
        Nat.pow_add]
      ring
    have hunits : 2 ^ log * den ≤ units := by
      refine hlow fun h => ?_
      rw [h, Nat.log2_zero] at hlog
      omega
    have hround : ¬ roundHalfEven units (den * 2 ^ (log - 52)) < 2 ^ 52 := by
      rw [roundHalfEven_lt_iff hpos (by decide)]
      omega
    have habove : 2 ^ 54 * (2 ^ top * den) ≤ units := by
      calc 2 ^ 54 * (2 ^ top * den) = 2 ^ (54 + top) * den := by rw [Nat.pow_add, Nat.mul_assoc]
        _ ≤ 2 ^ log * den := Nat.mul_le_mul_right _ (Nat.pow_le_pow_right (by decide) (by omega))
        _ ≤ units := hunits
    exact iff_of_false (by omega) (by omega)

theorem overflow_mul_units {top : Nat} (htop : top = 2044) :
    overflow * 2 ^ unitScale = (2 ^ 54 - 1) * 2 ^ top := by
  subst htop
  decide +kernel

theorem isFinite_ofRatio_iff (negative : Bool) {num den : Nat} (hd : 0 < den) :
    (ofRatio negative num den).IsFinite ↔ num < overflow * den := by
  have hbound : num < overflow * den ↔ nearestRank num den < rankLimit := by
    obtain ⟨top, htop⟩ : ∃ top, top = 2044 := ⟨_, rfl⟩
    rw [nearestRank_lt_rankLimit_iff hd htop, ← Nat.mul_assoc, ← overflow_mul_units htop,
      Nat.mul_right_comm]
    exact (Nat.mul_lt_mul_right (Nat.pow_pos (by decide))).symm
  rw [hbound, ofRatio, ofRank]
  by_cases h : nearestRank num den < rankLimit
  · rw [dif_pos h]
    exact iff_of_true trivial h
  · rw [dif_neg h]
    exact iff_of_false id h

theorem overflow_pos : 0 < overflow := by decide +kernel

theorem overflow_le : overflow ≤ 10 ^ decimalLimit := by decide +kernel

theorem pow_mul_pow_le {a b c d : Nat} (h : a + b ≤ c + d) : 10 ^ a * 10 ^ b ≤ 10 ^ c * 10 ^ d := by
  rw [← Nat.pow_add, ← Nat.pow_add]
  exact Nat.pow_le_pow_right (by decide) h

/-- So large an exponent leads past the bound, whatever the digits are. -/
theorem overflow_le_of_size {digits k : Nat} {exponent : Int} (hk : 10 ^ k ≤ digits)
    (hsize : (decimalLimit : Int) ≤ exponent + k) :
    overflow * 10 ^ (-exponent).toNat ≤ digits * 10 ^ exponent.toNat := by
  calc overflow * 10 ^ (-exponent).toNat ≤ 10 ^ decimalLimit * 10 ^ (-exponent).toNat :=
        Nat.mul_le_mul_right _ overflow_le
    _ ≤ 10 ^ k * 10 ^ exponent.toNat := pow_mul_pow_le (by omega)
    _ ≤ digits * 10 ^ exponent.toNat := Nat.mul_le_mul_right _ hk

/-- So small an exponent keeps below the bound. -/
theorem lt_overflow_of_size {digits k : Nat} {exponent : Int} (hk : digits < 10 ^ k)
    (hsize : exponent + k ≤ 0) :
    digits * 10 ^ exponent.toNat < overflow * 10 ^ (-exponent).toNat := by
  have hten : ∀ n : Nat, 0 < 10 ^ n := fun n => Nat.pow_pos (by decide)
  calc digits * 10 ^ exponent.toNat < 10 ^ k * 10 ^ exponent.toNat :=
        Nat.mul_lt_mul_of_pos_right hk (hten _)
    _ ≤ 10 ^ 0 * 10 ^ (-exponent).toNat := pow_mul_pow_le (by omega)
    _ ≤ overflow * 10 ^ (-exponent).toNat := Nat.mul_le_mul_right _ overflow_pos

/-- **A decimal is finite** exactly below the bound. -/
theorem isFinite_ofDecimal_iff (negative : Bool) (digits : Nat) (exponent : Int) :
    (ofDecimal negative digits exponent).IsFinite ↔
      digits * 10 ^ exponent.toNat < overflow * 10 ^ (-exponent).toNat := by
  have hten : ∀ n : Nat, 0 < 10 ^ n := fun n => Nat.pow_pos (by decide)
  unfold ofDecimal
  by_cases hd : digits = 0
  · rw [if_pos hd, hd, Nat.zero_mul]
    exact iff_of_true trivial (Nat.mul_pos overflow_pos (hten _))
  have hlength := @Nat.length_toDigits_le_iff 10 digits
  have hpos := @Nat.length_toDigits_pos 10 digits
  rw [if_neg hd]
  dsimp only
  generalize (Nat.toDigits 10 digits).length = length at hlength hpos ⊢
  by_cases hhigh : (decimalLimit : Int) < exponent + length
  · have hlow : 10 ^ (length - 1) ≤ digits := by
      by_cases h1 : length = 1
      · rw [h1]
        exact Nat.pos_of_ne_zero hd
      · have hnot := hlength (k := length - 1) (by decide) (by omega)
        omega
    rw [if_pos hhigh]
    exact iff_of_false id (Nat.not_lt.2 (overflow_le_of_size hlow (by omega)))
  · rw [if_neg hhigh]
    by_cases hlow : exponent + length < -(decimalLimit : Int)
    · rw [if_pos hlow]
      have hlt := (hlength (by decide) hpos).1 (Nat.le_refl _)
      exact iff_of_true trivial (lt_overflow_of_size hlt (by omega))
    · rw [if_neg hlow]
      by_cases he : 0 ≤ exponent
      · rw [if_pos he, isFinite_ofRatio_iff _ Nat.one_pos, show (-exponent).toNat = 0 by omega]
      · rw [if_neg he, isFinite_ofRatio_iff _ (hten _), show exponent.toNat = 0 by omega,
          Nat.pow_zero, Nat.mul_one]

end Binary64

/-! ### The value of a numeral -/

namespace Numeral

/-- The number that an exponent spells. -/
def Exponent.spelled (e : Exponent) : Int :=
  let magnitude : Int := Nat.ofDigitChars 10 e.digits 0
  if e.sign = some '-' then -magnitude else magnitude

/-- All digits before the exponent. -/
def digits (n : Numeral) : List Char := n.whole ++ n.fraction.getD []

/-- The power of ten that the digits are meant with. -/
def power (n : Numeral) : Int := n.exponent.elim 0 Exponent.spelled - (n.fraction.getD []).length

/-- The number that a numeral spells. -/
def value (n : Numeral) : ℚ :=
  let magnitude : ℚ := ((Nat.ofDigitChars 10 n.digits 0 * 10 ^ n.power.toNat : ℕ) : ℚ) /
    ((10 ^ (-n.power).toNat : ℕ) : ℚ)
  if n.isNegative then -magnitude else magnitude

/-- Whether the exponent is read in full, or so few digits stand before it that they
cannot make up for what is not. -/
def Legible (n : Numeral) : Prop :=
  (∀ e ∈ n.exponent, Nat.ofDigitChars 10 e.digits 0 < exponentLimit) ∨
    n.digits.length + Binary64.decimalLimit ≤ exponentLimit

variable {n : Numeral}

theorem value_of_integer (h : n.isDecimal = false) : n.value = n.wholeValue := by
  obtain ⟨sign, whole, fraction, exponent⟩ := n
  simp only [isDecimal, Bool.or_eq_false_iff, Option.isSome_eq_false_iff,
    Option.isNone_iff_eq_none] at h
  obtain ⟨rfl, rfl⟩ := h
  simp only [value, digits, power, wholeValue, isNegative]
  by_cases h : sign = some '-'
  · simp [h]
  · simp [h]

/-- An exponent that passes the limit still passes it where reading stops. -/
theorem lt_of_readExponent_lt : ∀ {ds : List Char} {k : Nat}, readExponent k ds < exponentLimit →
    Nat.ofDigitChars 10 ds k < exponentLimit
  | [], _, h => h
  | d :: ds, k, h => by
    have hstay : ∀ ds : List Char, ¬ k < exponentLimit → readExponent k ds = k := by
      intro ds hk
      induction ds with
      | nil => rfl
      | cons d ds ih => rwa [readExponent, List.foldl_cons, if_neg hk]
    by_cases hk : k < exponentLimit
    · rw [readExponent, List.foldl_cons, if_pos hk] at h
      rw [Nat.ofDigitChars_cons]
      exact lt_of_readExponent_lt h
    · rw [hstay _ hk] at h
      exact absurd h hk

theorem ofDigitChars_lt : ∀ {ds : List Char}, Digits ds →
    Nat.ofDigitChars 10 ds 0 < 10 ^ ds.length
  | [], _ => Nat.one_pos
  | d :: ds, h => by
    obtain ⟨hd, hds⟩ := List.forall_mem_cons.1 h
    have hdigit : d.toNat - '0'.toNat ≤ 9 := by
      have hle := (Char.isDigit_iff_toNat.1 hd).2
      exact Nat.sub_le_of_le_add hle
    have hrest := ofDigitChars_lt hds
    have hfirst := Nat.mul_le_mul_left (10 ^ ds.length) hdigit
    rw [Nat.ofDigitChars_cons, Nat.ofDigitChars_eq_ofDigitChars_zero, List.length_cons,
      Nat.pow_succ, Nat.mul_zero, Nat.zero_add]
    omega

theorem abs_value_lt_iff (bound : Nat) : |n.value| < bound ↔
    Nat.ofDigitChars 10 n.digits 0 * 10 ^ n.power.toNat < bound * 10 ^ (-n.power).toNat := by
  unfold value
  generalize Nat.ofDigitChars 10 n.digits 0 * 10 ^ n.power.toNat = num
  have hden : 0 < 10 ^ (-n.power).toNat := Nat.pow_pos (by decide)
  generalize 10 ^ (-n.power).toNat = den at hden ⊢
  have habs : ∀ x : ℚ, |if n.isNegative then -x else x| = |x| := by
    intro x
    split
    · exact abs_neg x
    · rfl
  have hpos : (0 : ℚ) ≤ (num : ℚ) / den := div_nonneg (Nat.cast_nonneg _) (Nat.cast_nonneg _)
  rw [habs, abs_of_nonneg hpos, div_lt_iff₀ (Nat.cast_pos.2 hden), ← Nat.cast_mul, Nat.cast_lt]

/-- **A numeral reads as a finite number** exactly if what it spells lies below the
bound. -/
theorem isFinite_toBinary64_iff (hn : n.Proper) (hl : n.Legible) :
    n.toBinary64.IsFinite ↔ |n.value| < Binary64.overflow := by
  have hdigits : Digits n.digits := by
    intro c hc
    rcases List.mem_append.1 hc with hc | hc
    · exact hn.whole c hc
    · cases hf : n.fraction with
      | none => simp [hf] at hc
      | some ds =>
        rw [hf] at hc
        exact hn.fraction ds hf c hc
  have hfraction : (n.fraction.getD []).length ≤ n.digits.length := by simp [digits]
  have hlt := ofDigitChars_lt hdigits
  rw [abs_value_lt_iff, toBinary64, Binary64.isFinite_ofDecimal_iff, power]
  show Nat.ofDigitChars 10 n.digits 0 * _ < _ ↔ _
  generalize (n.fraction.getD []).length = length at hfraction ⊢
  generalize Nat.ofDigitChars 10 n.digits 0 = magnitude at hlt ⊢
  cases he : n.exponent with
  | none => rfl
  | some e =>
    simp only [Option.elim_some]
    by_cases hm : Nat.ofDigitChars 10 e.digits 0 < exponentLimit
    · rw [Exponent.value, Exponent.magnitude_eq hm, Exponent.spelled]
    · -- the exponent outweighs the digits, as it is read and as it is spelled
      have hshort := hl.resolve_left fun h => hm (h e he)
      have hread : ¬ e.magnitude < exponentLimit := fun h => hm (lt_of_readExponent_lt h)
      have hzero : magnitude = 0 ∨ 10 ^ 0 ≤ magnitude := Nat.eq_zero_or_pos magnitude
      have hten : ∀ k : Nat, 0 < 10 ^ k := fun k => Nat.pow_pos (by decide)
      unfold exponentLimit at hm hread hshort
      unfold Exponent.value Exponent.spelled
      by_cases hsign : e.sign = some '-'
      · rw [if_pos hsign, if_pos hsign]
        exact iff_of_true (Binary64.lt_overflow_of_size hlt (by omega))
          (Binary64.lt_overflow_of_size hlt (by omega))
      · rw [if_neg hsign, if_neg hsign]
        rcases hzero with rfl | hpos
        · rw [Nat.zero_mul, Nat.zero_mul]
          exact iff_of_true (Nat.mul_pos Binary64.overflow_pos (hten _))
            (Nat.mul_pos Binary64.overflow_pos (hten _))
        · exact iff_of_false (Nat.not_lt.2 (Binary64.overflow_le_of_size hpos (by omega)))
            (Nat.not_lt.2 (Binary64.overflow_le_of_size hpos (by omega)))

end Numeral

end TagScope
