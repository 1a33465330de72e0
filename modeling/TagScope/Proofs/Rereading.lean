/-
# Numbers read back

What is written for a number is read as that number. For an integer this is
about its digits. For a finite binary64 number it has three parts. A decimal
stands for the same number however many zeros it drags along. The decimal that
`Binary64.shortest` settles on reads back: the candidates are tried, and the
exact value, with which the search ends, is read without any rounding. And
both layouts write a numeral with the digits and the exponent of that decimal.

Key definitions: `Numeral.placed`, `Numeral.raised`, `Numeral.signOf`.
Key theorems: `Binary64.ofDecimal_mul_pow`, `Binary64.ofDecimal_exact`,
`Binary64.readsAs_shortest`, `Binary64.numeral_inspect`, `numeral_intText`.
-/
import TagScope.Binary64.Layout
import TagScope.Proofs.Numerals
import TagScope.Value.Text

namespace TagScope

/-! ### Decimals with zeros at the end -/

theorem roundHalfEven_mul_right (num den : Nat) {c : Nat} (hc : 0 < c) :
    roundHalfEven (num * c) (den * c) = roundHalfEven num den := by
  have hlt : den * c < 2 * (num % den * c) ↔ den < 2 * (num % den) := by
    rw [← Nat.mul_assoc]
    exact Nat.mul_lt_mul_right hc
  have heq : den * c = 2 * (num % den * c) ↔ den = 2 * (num % den) := by
    rw [← Nat.mul_assoc]
    exact Nat.mul_left_inj (Nat.ne_of_gt hc)
  simp only [roundHalfEven, Nat.mul_div_mul_right _ _ hc, Nat.mul_mod_mul_right, hlt, heq]

theorem roundHalfEven_mul_self (n : Nat) {den : Nat} (hd : 0 < den) :
    roundHalfEven (n * den) den = n := by
  have hpos : ¬ den < 0 ∧ den ≠ 0 := ⟨Nat.not_lt_zero _, Nat.ne_of_gt hd⟩
  simp [roundHalfEven, Nat.mul_div_cancel _ hd, Nat.mul_mod_left, hpos.2]

theorem toDigits_mul_pow {n : Nat} (hn : 0 < n) : ∀ k : Nat,
    Nat.toDigits 10 (n * 10 ^ k) = Nat.toDigits 10 n ++ List.replicate k '0'
  | 0 => by simp
  | k + 1 => by
    have hpos : 0 < n * 10 ^ k := Nat.mul_pos hn (Nat.pow_pos (by decide))
    have happend := @Nat.toDigits_append_toDigits 10 (n * 10 ^ k) 0 (by decide) hpos (by decide)
    have heq : n * 10 ^ (k + 1) = 10 * (n * 10 ^ k) + 0 := by
      rw [Nat.pow_succ, ← Nat.mul_assoc, Nat.mul_comm, Nat.add_zero]
    rw [heq, ← happend, toDigits_mul_pow hn k, Nat.toDigits_zero, List.append_assoc,
      List.replicate_succ']

namespace Binary64

theorem nearestRank_mul_right (num den : Nat) {c : Nat} (hc : 0 < c) :
    nearestRank (num * c) (den * c) = nearestRank num den := by
  have hnum : num * c * 2 ^ unitScale = num * 2 ^ unitScale * c := Nat.mul_right_comm ..
  have hden : ∀ k, den * c * 2 ^ k = den * 2 ^ k * c := fun k => Nat.mul_right_comm ..
  simp only [nearestRank, hnum, hden, Nat.mul_div_mul_right _ _ hc, roundHalfEven_mul_right _ _ hc]

theorem ofRatio_mul_right (negative : Bool) (num den : Nat) {c : Nat} (hc : 0 < c) :
    ofRatio negative (num * c) (den * c) = ofRatio negative num den := by
  rw [ofRatio, nearestRank_mul_right _ _ hc, ofRatio]

/-- **Zeros at the end of a decimal** count as powers of ten. -/
theorem ofDecimal_mul_pow (negative : Bool) (digits k : Nat) (exponent : Int) :
    ofDecimal negative (digits * 10 ^ k) exponent = ofDecimal negative digits (exponent + k) := by
  by_cases hd : digits = 0
  · simp [ofDecimal, hd]
  have hpow : ∀ n : Nat, 0 < 10 ^ n := fun n => Nat.pow_pos (by decide)
  have hne : digits * 10 ^ k ≠ 0 := Nat.mul_ne_zero hd (Nat.ne_of_gt (hpow k))
  have hsize : exponent + (Nat.toDigits 10 (digits * 10 ^ k)).length =
      exponent + k + (Nat.toDigits 10 digits).length := by
    rw [toDigits_mul_pow (Nat.pos_of_ne_zero hd), List.length_append, List.length_replicate]
    omega
  simp only [ofDecimal, hd, hne, if_false, hsize]
  congr 2
  -- both quotients come from one by a power of ten
  by_cases he : 0 ≤ exponent
  · have heq : (exponent + k).toNat = k + exponent.toNat := by omega
    rw [if_pos he, if_pos (by omega), heq, Nat.pow_add, Nat.mul_assoc]
  · rw [if_neg he]
    by_cases hek : 0 ≤ exponent + k
    · have heq : k = (exponent + k).toNat + (-exponent).toNat := by omega
      have hscale := ofRatio_mul_right negative (digits * 10 ^ (exponent + k).toNat) 1
        (hpow (-exponent).toNat)
      rw [if_pos hek, ← hscale, Nat.one_mul, Nat.mul_assoc, ← Nat.pow_add, ← heq]
    · have heq : (-exponent).toNat = (-(exponent + k)).toNat + k := by omega
      have hscale := ofRatio_mul_right negative digits (10 ^ (-(exponent + k)).toNat) (hpow k)
      rw [if_neg hek, ← hscale, ← Nat.pow_add, ← heq]

/-! ### The exact value -/

theorem mantissa_eq (rank : Nat) : mantissa rank + scale rank * 2 ^ 52 = rank := by
  have : scale rank * 2 ^ 52 ≤ rank := by
    unfold scale
    omega
  unfold mantissa
  omega

theorem scaleOf_units (rank : Nat) : scaleOf (units rank) = scale rank := by
  unfold scaleOf units
  by_cases h : rank < 2 ^ 53
  · have hs : scale rank = 0 := by
      unfold scale
      omega
    have hm : mantissa rank = rank := by
      unfold mantissa
      omega
    rw [hs, hm, Nat.pow_zero, Nat.mul_one]
    by_cases h0 : rank = 0
    · simp [h0]
    · have := (Nat.log2_lt h0).2 h
      omega
  · have hm : 2 ^ 52 ≤ mantissa rank ∧ mantissa rank < 2 ^ 53 := by
      unfold mantissa scale
      omega
    have hlog : (mantissa rank * 2 ^ scale rank).log2 = 52 + scale rank := by
      have hpos : 0 < 2 ^ scale rank := Nat.pow_pos (by decide)
      rw [Nat.log2_eq_iff (Nat.mul_ne_zero (by omega) (Nat.ne_of_gt hpos))]
      constructor
      · rw [Nat.pow_add]
        exact Nat.mul_le_mul_right _ hm.1
      · rw [show 52 + scale rank + 1 = 53 + scale rank by omega, Nat.pow_add]
        exact Nat.mul_lt_mul_of_pos_right hm.2 hpos
    rw [hlog]
    omega

theorem nearestRank_units (rank : Nat) : nearestRank (units rank) (2 ^ unitScale) = rank := by
  have hpos : 0 < 2 ^ unitScale := Nat.pow_pos (by decide)
  have hden : 0 < 2 ^ unitScale * 2 ^ scale rank :=
    Nat.mul_pos hpos (Nat.pow_pos (by decide))
  have hnum : units rank * 2 ^ unitScale = mantissa rank * (2 ^ unitScale * 2 ^ scale rank) := by
    rw [units, Nat.mul_assoc, Nat.mul_comm (2 ^ scale rank)]
  rw [nearestRank]
  simp only [Nat.mul_div_cancel _ hpos, scaleOf_units]
  rw [hnum, roundHalfEven_mul_self _ hden, Nat.add_comm]
  exact mantissa_eq rank

theorem ofRank_eq_finite (negative : Bool) (rank : Fin rankLimit) :
    ofRank negative rank = .finite negative rank := by
  rw [ofRank, dif_pos rank.isLt]

theorem units_pos {rank : Nat} (h : rank ≠ 0) : 0 < units rank := by
  refine Nat.mul_pos ?_ (Nat.pow_pos (by decide))
  unfold mantissa scale
  omega

theorem units_lt_pow {rank k : Nat} (h : 53 + scale rank ≤ k) (hm : mantissa rank < 2 ^ 53) :
    units rank < 2 ^ k := by
  calc units rank < 2 ^ 53 * 2 ^ scale rank :=
        Nat.mul_lt_mul_of_pos_right hm (Nat.pow_pos (by decide))
    _ = 2 ^ (53 + scale rank) := (Nat.pow_add ..).symm
    _ ≤ 2 ^ k := Nat.pow_le_pow_right (by decide) h

theorem units_lt (rank : Fin rankLimit) : units rank < 2 ^ (1024 + unitScale) := by
  have hlim : rank.val < 2047 * 2 ^ 52 := rank.isLt
  refine units_lt_pow ?_ ?_
  · unfold scale unitScale
    omega
  · unfold mantissa scale
    omega

/-- **The exact value** of a magnitude, written out as a decimal, reads back. -/
theorem ofDecimal_exact {rank : Fin rankLimit} (h : rank.val ≠ 0) :
    ofDecimal false (units rank * 5 ^ unitScale) (-(unitScale : Int)) = .finite false rank := by
  have hunits := units_pos h
  have hfive : ∀ n : Nat, 0 < 5 ^ n := fun n => Nat.pow_pos (by decide)
  have hdigits : units rank * 5 ^ unitScale ≠ 0 :=
    Nat.ne_of_gt (Nat.mul_pos hunits (hfive unitScale))
  -- the number of digits is within the limits
  have hlow : 674 < (Nat.toDigits 10 (units rank * 5 ^ unitScale)).length := by
    rw [← Nat.not_le, Nat.length_toDigits_le_iff (by decide) (by decide), Nat.not_lt]
    calc 10 ^ 674 ≤ 5 ^ unitScale := by decide +kernel
      _ ≤ units rank * 5 ^ unitScale := Nat.le_mul_of_pos_left _ hunits
  have hhigh : (Nat.toDigits 10 (units rank * 5 ^ unitScale)).length ≤ 1474 := by
    rw [Nat.length_toDigits_le_iff (by decide) (by decide)]
    calc units rank * 5 ^ unitScale < 2 ^ (1024 + unitScale) * 5 ^ unitScale :=
          Nat.mul_lt_mul_of_pos_right (units_lt rank) (hfive unitScale)
      _ ≤ 10 ^ 1474 := by decide +kernel
  have hsize : ∀ n : Nat, 674 < n → n ≤ 1474 → ¬ (decimalLimit : Int) < -(unitScale : Int) + n ∧
      ¬ -(unitScale : Int) + n < -(decimalLimit : Int) := by
    intro n h₁ h₂
    simp only [decimalLimit, unitScale]
    omega
  have hnot : ¬ (0 : Int) ≤ -(unitScale : Int) := by decide
  have hten : 10 ^ (- -(unitScale : Int)).toNat = 2 ^ unitScale * 5 ^ unitScale := by
    decide +kernel
  rw [ofDecimal, if_neg hdigits]
  dsimp only
  rw [if_neg (hsize _ hlow hhigh).1, if_neg (hsize _ hlow hhigh).2, if_neg hnot, hten,
    ofRatio_mul_right _ _ _ (hfive unitScale), ofRatio, nearestRank_units, ofRank_eq_finite]

/-! ### The shortest decimal -/

/-- The search ends with a decimal that has been tried, or with the exact
value. -/
theorem shortest_eq {rank : Fin rankLimit} (h : rank.val ≠ 0) : ∃ candidates : List Decimal,
    shortest rank = (candidates.find? (readsAs rank)).getD
      ⟨units rank * 5 ^ unitScale, -(unitScale : Int)⟩ := by
  let size := magnitude (units rank) (2 ^ unitScale)
  refine ⟨(List.range maxDigits).flatMap fun (n : Nat) =>
    neighbours (units rank) (2 ^ unitScale) (size - (n + 1)), ?_⟩
  rw [shortest, if_neg h]
  dsimp only
  generalize List.find? (readsAs rank) _ = found
  cases found <;> rfl

/-- **The shortest decimal reads back.** -/
theorem readsAs_shortest {rank : Fin rankLimit} (h : rank.val ≠ 0) :
    ofDecimal false (shortest rank).digits (shortest rank).exponent = .finite false rank := by
  obtain ⟨candidates, hc⟩ := shortest_eq h
  rw [hc]
  cases hd : candidates.find? (readsAs rank) with
  | none => exact ofDecimal_exact h
  | some d =>
    have hreads : readsAs rank d = true := List.find?_some hd
    exact of_decide_eq_true hreads

/-- The sign of a number is the sign that its decimal is read with. -/
theorem ofDecimal_of_false {digits : Nat} {exponent : Int} {rank : Fin rankLimit}
    (h : ofDecimal false digits exponent = .finite false rank) (negative : Bool) :
    ofDecimal negative digits exponent = .finite negative rank := by
  have hrank : ∀ {k : Nat}, ofRank false k = .finite false rank →
      ofRank negative k = .finite negative rank := by
    intro k hk
    unfold ofRank at hk ⊢
    split at hk
    · rename_i hlt
      rw [dif_pos hlt, (Binary64.finite.inj hk).2]
    · simp at hk
  have hzero : zero false = .finite false rank → zero negative = .finite negative rank := by
    intro hz
    rw [zero, (Binary64.finite.inj hz).2]
  unfold ofDecimal at h ⊢
  split at h
  · rename_i hd
    rw [if_pos hd]
    exact hzero h
  · rename_i hd
    rw [if_neg hd]
    dsimp only at h ⊢
    split at h
    · simp at h
    · rename_i hhigh
      rw [if_neg hhigh]
      split at h
      · rename_i hlow
        rw [if_pos hlow]
        exact hzero h
      · rename_i hlow
        rw [if_neg hlow]
        split at h
        · rename_i he
          rw [if_pos he]
          exact hrank h
        · rename_i he
          rw [if_neg he]
          exact hrank h

/-- What reads as a finite number other than zero is neither too large nor too
small to be read. -/
theorem size_of_ofDecimal {digits : Nat} {exponent : Int} {rank : Fin rankLimit}
    (h : ofDecimal false digits exponent = .finite false rank) (hr : rank.val ≠ 0) :
    digits ≠ 0 ∧ exponent + (Nat.toDigits 10 digits).length ≤ decimalLimit ∧
      -(decimalLimit : Int) ≤ exponent + (Nat.toDigits 10 digits).length := by
  have hzero : zero false ≠ .finite false rank := by
    intro hz
    have := congrArg Fin.val (Binary64.finite.inj hz).2
    exact hr this.symm
  unfold ofDecimal at h
  dsimp only at h
  split at h
  · exact absurd h hzero
  · rename_i hd
    split at h
    · simp at h
    · rename_i hhigh
      split at h
      · exact absurd h hzero
      · rename_i hlow
        exact ⟨hd, Int.not_lt.1 hhigh, Int.not_lt.1 hlow⟩

end Binary64

/-! ### Digits without the zeros at the end -/

namespace Decimal

theorem toDigits_eq_digitText (d : Decimal) :
    ∃ zeros, Nat.toDigits 10 d.digits = d.digitText ++ List.replicate zeros '0' := by
  have hsplit := @List.takeWhile_append_dropWhile _ (· = '0') (Nat.toDigits 10 d.digits).reverse
  have hzeros : (Nat.toDigits 10 d.digits).reverse.takeWhile (· = '0') =
      List.replicate ((Nat.toDigits 10 d.digits).reverse.takeWhile (· = '0')).length '0' :=
    List.eq_replicate_iff.2 ⟨rfl, fun c hc => by simpa using List.mem_takeWhile_imp hc⟩
  refine ⟨((Nat.toDigits 10 d.digits).reverse.takeWhile (· = '0')).length, ?_⟩
  rw [digitText, ← List.reverse_replicate, ← hzeros, ← List.reverse_append, hsplit,
    List.reverse_reverse]

theorem digits_digitText (d : Decimal) : Digits d.digitText := by
  intro c hc
  obtain ⟨zeros, hz⟩ := d.toDigits_eq_digitText
  have hmem : c ∈ Nat.toDigits 10 d.digits := by
    rw [hz]
    exact List.mem_append_left _ hc
  exact Nat.isDigit_of_mem_toDigits (by decide) (by decide) hmem

theorem digitText_ne_nil {d : Decimal} (h : d.digits ≠ 0) : d.digitText ≠ [] := by
  intro hnil
  obtain ⟨zeros, hz⟩ := d.toDigits_eq_digitText
  have hvalue := @Nat.ofDigitChars_ten_toDigits d.digits
  rw [hz, hnil, List.nil_append, Nat.ofDigitChars_replicate_zero, Nat.mul_zero] at hvalue
  exact h hvalue.symm

theorem ofDecimal_digitText (d : Decimal) (negative : Bool) :
    Binary64.ofDecimal negative (Nat.ofDigitChars 10 d.digitText 0)
      (d.point - d.digitText.length) = Binary64.ofDecimal negative d.digits d.exponent := by
  obtain ⟨zeros, hz⟩ := d.toDigits_eq_digitText
  have hvalue : d.digits = Nat.ofDigitChars 10 d.digitText 0 * 10 ^ zeros := by
    have hvalue := @Nat.ofDigitChars_ten_toDigits d.digits
    rw [hz, Nat.ofDigitChars_append, Nat.ofDigitChars_replicate_zero, Nat.mul_comm] at hvalue
    exact hvalue.symm
  have hpoint : d.point - d.digitText.length = d.exponent + zeros := by
    rw [point, hz, List.length_append, List.length_replicate]
    omega
  rw [hpoint, ← Binary64.ofDecimal_mul_pow, ← hvalue]

end Decimal

/-! ### The numerals of the two layouts -/

namespace Numeral

/-- The numeral with the point after the first `point` digits. -/
def placed (sign : Option Char) (digits : List Char) (point : Int) : Numeral :=
  if point ≤ 0 then ⟨sign, ['0'], some (List.replicate (-point).toNat '0' ++ digits), none⟩
  else if digits.length ≤ point.toNat then
    ⟨sign, digits ++ List.replicate (point.toNat - digits.length) '0', some ['0'], none⟩
  else ⟨sign, digits.take point.toNat, some (digits.drop point.toNat), none⟩

/-- The numeral with the point after the first digit and the power of ten. -/
def raised (sign : Option Char) (digits : List Char) (point : Int) : Numeral :=
  ⟨sign, digits.take 1, if digits.length ≤ 1 then none else some (digits.drop 1),
    some ⟨'e', if 0 ≤ point - 1 then none else some '-', Nat.toDigits 10 (point - 1).natAbs⟩⟩

section

variable {sign : Option Char} {digits : List Char} {point : Int}

theorem isDecimal_placed : (placed sign digits point).isDecimal = true := by
  unfold placed
  split
  · rfl
  · split <;> rfl

theorem isDecimal_raised : (raised sign digits point).isDecimal = true := by
  simp [raised, isDecimal]

theorem text_placed : (placed sign digits point).text =
    sign.toList ++ Binary64.inspectLayout.place digits point := by
  unfold placed Binary64.Layout.place
  dsimp only
  split
  · simp [text]
  · have hdrop : (digits.drop point.toNat).isEmpty = true ↔ digits.length ≤ point.toNat := by
      rw [List.isEmpty_iff, List.drop_eq_nil_iff]
    simp only [hdrop]
    split
    · rename_i h
      simp [text, List.take_of_length_le h, Binary64.inspectLayout]
    · simp [text]

theorem text_raised : (raised sign digits point).text =
    sign.toList ++ Binary64.Layout.raise digits point := by
  have hdrop : (digits.drop 1).isEmpty = true ↔ digits.length ≤ 1 := by
    rw [List.isEmpty_iff, List.drop_eq_nil_iff]
  have hexponent : (toString (point - 1)).toList =
      (if 0 ≤ point - 1 then none else some '-').toList ++ Nat.toDigits 10 (point - 1).natAbs := by
    rw [Int.toString_eq_repr, Int.repr_eq_if]
    split
    · rename_i h
      rw [Nat.toList_repr, show (point - 1).toNat = (point - 1).natAbs by omega]
      rfl
    · rename_i h
      rw [String.toList_append, Nat.toList_repr,
        show (-(point - 1)).toNat = (point - 1).natAbs by omega]
      rfl
  unfold raised Binary64.Layout.raise
  simp only [hdrop, hexponent, text, Exponent.text, Option.elim_some]
  split <;> simp

theorem proper_placed (hs : ∀ c ∈ sign, c = '-' ∨ c = '+') (hd : Digits digits)
    (hne : digits ≠ []) : (placed sign digits point).Proper := by
  have hzero : ∀ k, Digits (List.replicate k '0') := by
    intro k c hc
    rw [(List.mem_replicate.1 hc).2]
    decide
  have happend : ∀ {as bs : List Char}, Digits as → Digits bs → Digits (as ++ bs) := by
    intro as bs ha hb c hc
    rcases List.mem_append.1 hc with hc | hc
    · exact ha c hc
    · exact hb c hc
  unfold placed
  split
  · refine ⟨hs, by simp [Digits], fun ds hds => ?_, Or.inl (by simp), by simp⟩
    rw [Option.mem_def, Option.some.injEq] at hds
    exact hds ▸ happend (hzero _) hd
  · split
    · refine ⟨hs, happend hd (hzero _), fun ds hds => ?_, Or.inl (by simp [hne]), by simp⟩
      rw [Option.mem_def, Option.some.injEq] at hds
      exact hds ▸ hzero 1
    · rename_i hp hl
      refine ⟨hs, fun c hc => hd c (List.mem_of_mem_take hc), fun ds hds => ?_, Or.inl ?_, by simp⟩
      · rw [Option.mem_def, Option.some.injEq] at hds
        subst hds
        exact fun c hc => hd c (List.mem_of_mem_drop hc)
      · rw [Ne, List.take_eq_nil_iff]
        rintro (h | h)
        · omega
        · exact hne h

theorem proper_raised (hs : ∀ c ∈ sign, c = '-' ∨ c = '+') (hd : Digits digits)
    (hne : digits ≠ []) : (raised sign digits point).Proper := by
  refine ⟨hs, fun c hc => hd c (List.mem_of_mem_take hc), fun ds hds => ?_, Or.inl ?_, ?_⟩
  · simp only [raised] at hds
    split at hds
    · simp at hds
    · rw [Option.mem_def, Option.some.injEq] at hds
      subst hds
      exact fun c hc => hd c (List.mem_of_mem_drop hc)
  · rw [raised, Ne, List.take_eq_nil_iff]
    rintro (h | h)
    · omega
    · exact hne h
  · intro e he
    simp only [raised, Option.mem_def, Option.some.injEq] at he
    subst he
    refine ⟨Or.inl rfl, fun c hc => ?_, Nat.toDigits_ne_nil, fun c hc => ?_⟩
    · dsimp only at hc
      split at hc
      · simp at hc
      · rw [Option.mem_def, Option.some.injEq] at hc
        exact Or.inl hc.symm
    · exact Nat.isDigit_of_mem_toDigits (by decide) (by decide) hc

theorem toBinary64_placed : (placed sign digits point).toBinary64 =
    Binary64.ofDecimal (sign = some '-') (Nat.ofDigitChars 10 digits 0)
      (point - digits.length) := by
  have hcons : ∀ cs : List Char, Nat.ofDigitChars 10 ('0' :: cs) 0 = Nat.ofDigitChars 10 cs 0 :=
    fun cs => by simp [Nat.ofDigitChars_cons]
  have hzero : ∀ n, Nat.ofDigitChars 10 ['0'] n = 10 * n := fun n => by simp [Nat.ofDigitChars]
  unfold placed
  split
  · simp only [toBinary64, isNegative, Option.getD_some, Option.elim_none, List.singleton_append,
      hcons, Nat.ofDigitChars_append, Nat.ofDigitChars_replicate_zero, Nat.mul_zero,
      List.length_append, List.length_replicate]
    congr 1
    omega
  · split
    · -- the zeros filled in and the one behind the point are powers of ten
      rename_i hp hl
      simp only [toBinary64, isNegative, Option.getD_some, Option.elim_none,
        Nat.ofDigitChars_append, Nat.ofDigitChars_replicate_zero, hzero, List.length_singleton]
      rw [show 10 * (10 ^ (point.toNat - digits.length) * Nat.ofDigitChars 10 digits 0) =
        Nat.ofDigitChars 10 digits 0 * 10 ^ (point.toNat - digits.length + 1) by
          rw [Nat.pow_succ, ← Nat.mul_assoc, Nat.mul_comm, Nat.mul_comm 10],
        Binary64.ofDecimal_mul_pow]
      congr 1
      omega
    · rename_i hp hl
      simp only [toBinary64, isNegative, Option.getD_some, Option.elim_none,
        List.take_append_drop, List.length_drop]
      congr 1
      omega

theorem toBinary64_raised (hne : digits ≠ []) (hp : (point - 1).natAbs < exponentLimit) :
    (raised sign digits point).toBinary64 =
      Binary64.ofDecimal (sign = some '-') (Nat.ofDigitChars 10 digits 0)
        (point - digits.length) := by
  have hlength : 0 < digits.length := List.length_pos_iff.2 hne
  have hvalue : (raised sign digits point).exponent.elim 0 Exponent.value = point - 1 := by
    have hmagnitude : Exponent.magnitude ⟨'e', if 0 ≤ point - 1 then none else some '-',
        Nat.toDigits 10 (point - 1).natAbs⟩ = (point - 1).natAbs := by
      rw [Exponent.magnitude_eq] <;> rw [Nat.ofDigitChars_ten_toDigits]
      exact hp
    simp only [raised, Option.elim_some, Exponent.value, hmagnitude]
    split
    · simp only [reduceCtorEq, if_false]
      omega
    · simp only [if_true]
      omega
  rw [toBinary64, hvalue]
  by_cases hl : digits.length ≤ 1
  · simp only [raised, isNegative, hl, if_true, Option.getD_none, List.append_nil,
      List.take_of_length_le hl, List.length_nil]
    congr 1
    omega
  · simp only [raised, isNegative, hl, if_false, Option.getD_some, List.take_append_drop,
      List.length_drop]
    congr 1
    omega

end

end Numeral

/-! ### What is written is read -/

/-- The sign of a negative number. -/
def Numeral.signOf (negative : Bool) : Option Char := if negative then some '-' else none

theorem Numeral.mem_signOf {negative : Bool} :
    ∀ c ∈ Numeral.signOf negative, c = '-' ∨ c = '+' := by
  cases negative <;> simp [Numeral.signOf]

/-- **A finite number is read back** from the text that shows it, which is a
decimal. -/
theorem Binary64.numeral_inspect (negative : Bool) (rank : Fin rankLimit) : ∃ n : Numeral,
    n.Proper ∧ n.isDecimal = true ∧ n.text = (inspect (.finite negative rank)).toList ∧
      n.toBinary64 = .finite negative rank := by
  have hneg : decide (Numeral.signOf negative = some '-') = negative := by cases negative <;> rfl
  have hsign : (if negative then ['-'] else []) = (Numeral.signOf negative).toList := by
    cases negative <;> rfl
  by_cases hr : rank.val = 0
  · refine ⟨⟨Numeral.signOf negative, ['0'], some ['0'], none⟩,
      ⟨Numeral.mem_signOf, by simp [Digits], by simp [Digits], Or.inl (by simp), by simp⟩,
      rfl, ?_, ?_⟩
    · simp [inspect, write, Layout.magnitude, hr, hsign, Numeral.text, inspectLayout]
    · have hzero : rank = ⟨0, by decide⟩ := Fin.ext hr
      simp [Numeral.toBinary64, Numeral.isNegative, hneg, ofDecimal, zero, Nat.ofDigitChars, hzero]
  · have hreads := readsAs_shortest hr
    obtain ⟨hdigits, hhigh, hlow⟩ := size_of_ofDecimal hreads hr
    have hvalue := Decimal.ofDecimal_digitText (shortest rank) negative
    rw [ofDecimal_of_false hreads] at hvalue
    have hne := Decimal.digitText_ne_nil hdigits
    have hds := (shortest rank).digits_digitText
    have htext : (inspect (.finite negative rank)).toList = (Numeral.signOf negative).toList ++
        inspectLayout.magnitude rank := by
      rw [inspect, String.toList_ofList, write, hsign]
    rw [htext, Layout.magnitude, if_neg hr]
    dsimp only
    split
    · refine ⟨.placed (Numeral.signOf negative) (shortest rank).digitText (shortest rank).point,
        Numeral.proper_placed Numeral.mem_signOf hds hne, Numeral.isDecimal_placed,
        Numeral.text_placed, ?_⟩
      rw [Numeral.toBinary64_placed, hneg, hvalue]
    · have hpoint : ((shortest rank).point - 1).natAbs < Numeral.exponentLimit := by
        unfold Decimal.point Numeral.exponentLimit
        unfold decimalLimit at hhigh hlow
        omega
      refine ⟨.raised (Numeral.signOf negative) (shortest rank).digitText (shortest rank).point,
        Numeral.proper_raised Numeral.mem_signOf hds hne, Numeral.isDecimal_raised,
        Numeral.text_raised, ?_⟩
      rw [Numeral.toBinary64_raised hne hpoint, hneg, hvalue]

/-- **An integer is read back** from its text, which is no decimal. -/
theorem numeral_intText (i : Int64) : ∃ n : Numeral,
    n.Proper ∧ n.isDecimal = false ∧ n.text = (intText i).toList ∧ i.toInt = n.wholeValue := by
  have hds : Digits (Nat.toDigits 10 i.toInt.natAbs) := fun c hc =>
    Nat.isDigit_of_mem_toDigits (by decide) (by decide) hc
  refine ⟨⟨Numeral.signOf (i.toInt < 0), Nat.toDigits 10 i.toInt.natAbs, none, none⟩,
    ⟨Numeral.mem_signOf, hds, by simp, Or.inl Nat.toDigits_ne_nil, by simp⟩, rfl, ?_, ?_⟩
  · rw [intText, Int.toString_eq_repr, Int.repr_eq_if]
    by_cases h : 0 ≤ i.toInt
    · have hneg : ¬ i.toInt < 0 := Int.not_lt.2 h
      rw [if_pos h, Nat.toList_repr, show i.toInt.toNat = i.toInt.natAbs by omega]
      simp [Numeral.text, Numeral.signOf, hneg]
    · have hneg : i.toInt < 0 := Int.not_le.1 h
      rw [if_neg h, String.toList_append, Nat.toList_repr,
        show (-i.toInt).toNat = i.toInt.natAbs by omega]
      simp [Numeral.text, Numeral.signOf, hneg]
  · by_cases h : i.toInt < 0
    · simp only [Numeral.wholeValue, Numeral.isNegative, Numeral.signOf, h, decide_true, if_true,
        Nat.ofDigitChars_ten_toDigits]
      omega
    · simp only [Numeral.wholeValue, Numeral.isNegative, Numeral.signOf, h, decide_false, if_false,
        Nat.ofDigitChars_ten_toDigits, Bool.false_eq_true, reduceCtorEq]
      omega

end TagScope
