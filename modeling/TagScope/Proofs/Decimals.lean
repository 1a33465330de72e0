/-
# The text of an index

An item of a list is selected by the decimal text of its index, and by no other text of the
same number: there are digits only, those of ASCII, and no zero stands in front of others
(`isDecimal_iff`). The digits are read into a machine word, one after the other, and reading
ends where the word overflows. So a number that is too large for a word is read as none, not
as another one (`indexWord?_eq_some_iff`), and since no list has as many items, an index may
be read without a bound (`items_of_indexWord?`).

Key definitions: `isDecimal`, `readWord`, `indexWord?`.
Key theorems: `isDecimal_iff`, `readWord_eq`, `items_of_indexWord?`.
-/
import TagScope.Proofs.Presence

namespace TagScope

/-! ### Digits without a zero in front -/

/-- Whether a text is written as indices are. -/
def isDecimal (id : String) : Bool :=
  !id.isEmpty && id.toList.all Char.isDigit && (id == "0" || id.toList.head? != some '0')

theorem toDigits_of_isDigit {c : Char} (hc : c.isDigit = true) :
    c.toNat - '0'.toNat < 10 ∧ Nat.toDigits 10 (c.toNat - '0'.toNat) = [c] := by
  have hrange := Char.isDigit_iff_toNat.1 hc
  have hzero : '0'.toNat = 48 := rfl
  have hnine : '9'.toNat = 57 := rfl
  have hlt : c.toNat - '0'.toNat < 10 := by omega
  refine ⟨hlt, ?_⟩
  rw [Nat.toDigits_of_lt_base hlt, List.singleton_inj]
  apply Char.toNat_inj.1
  rw [Nat.toNat_digitChar_of_lt_ten hlt]
  omega

/-- **Digits that follow** those of a number other than zero are those of a number too. -/
theorem toDigits_append : ∀ {cs : List Char} {n : Nat}, 0 < n → (∀ c ∈ cs, c.isDigit = true) →
    Nat.toDigits 10 n ++ cs = Nat.toDigits 10 (Nat.ofDigitChars 10 cs n)
  | [], n, _, _ => List.append_nil _
  | c :: cs, n, hn, hcs => by
    obtain ⟨hc, hcs⟩ := List.forall_mem_cons.1 hcs
    obtain ⟨hlt, hdigit⟩ := toDigits_of_isDigit hc
    have hpos : 0 < 10 * n + (c.toNat - '0'.toNat) := by omega
    calc Nat.toDigits 10 n ++ c :: cs
        = (Nat.toDigits 10 n ++ Nat.toDigits 10 (c.toNat - '0'.toNat)) ++ cs := by
          rw [hdigit, List.append_assoc, List.singleton_append]
      _ = Nat.toDigits 10 (10 * n + (c.toNat - '0'.toNat)) ++ cs := by
          rw [Nat.toDigits_append_toDigits (by decide) hn hlt]
      _ = Nat.toDigits 10 (Nat.ofDigitChars 10 (c :: cs) n) := by
          rw [toDigits_append hpos hcs, Nat.ofDigitChars_cons]

theorem head?_toDigits_ne (n : Nat) (hn : 0 < n) : (Nat.toDigits 10 n).head? ≠ some '0' := by
  by_cases hlt : n < 10
  · rw [Nat.toDigits_of_lt_base hlt, List.head?_cons]
    intro h
    have hcode := congrArg Char.toNat (Option.some.inj h)
    rw [Nat.toNat_digitChar_of_lt_ten hlt] at hcode
    have hzero : '0'.toNat = 48 := rfl
    omega
  · have hle : 10 ≤ n := Nat.not_lt.1 hlt
    rw [Nat.toDigits_of_base_le (by decide) hle, List.head?_append_of_ne_nil _ Nat.toDigits_ne_nil]
    exact head?_toDigits_ne (n / 10) (Nat.div_pos hle (by decide))
termination_by n
decreasing_by omega

theorem eq_of_toString_eq {m n : Nat} (h : toString m = toString n) : m = n := by
  have hdigits : Nat.toDigits 10 m = Nat.toDigits 10 n := String.ofList_injective h
  rw [← Nat.ofDigitChars_ten_toDigits (n := m), hdigits, Nat.ofDigitChars_ten_toDigits]

theorem isDecimal_iff {id : String} : isDecimal id = true ↔ ∃ n : Nat, id = toString n := by
  have htext : ∀ n : Nat, (toString n).toList = Nat.toDigits 10 n := fun _ => Nat.toList_repr
  unfold isDecimal
  rw [Bool.and_eq_true, Bool.and_eq_true, Bool.or_eq_true, List.all_eq_true, bne_iff_ne,
    beq_iff_eq]
  constructor
  · rintro ⟨⟨hne, hdigits⟩, hzero | hhead⟩
    · exact ⟨0, hzero⟩
    · refine ⟨Nat.ofDigitChars 10 id.toList 0, String.toList_injective ?_⟩
      rw [htext]
      cases hid : id.toList with
      | nil =>
        have hempty : id = "" := String.toList_injective hid
        simp [hempty] at hne
      | cons c cs =>
        rw [hid] at hdigits hhead
        obtain ⟨hc, hcs⟩ := List.forall_mem_cons.1 hdigits
        obtain ⟨-, hdigit⟩ := toDigits_of_isDigit hc
        have hpos : 0 < c.toNat - '0'.toNat := by
          apply Nat.pos_of_ne_zero
          intro hn
          rw [hn] at hdigit
          simp [← List.singleton_inj.1 hdigit] at hhead
        rw [Nat.ofDigitChars_cons, Nat.mul_zero, Nat.zero_add, ← toDigits_append hpos hcs, hdigit,
          List.singleton_append]
  · rintro ⟨n, rfl⟩
    refine ⟨⟨?_, fun c hc => ?_⟩, ?_⟩
    · rw [Bool.not_eq_true', ← Bool.not_eq_true, String.isEmpty_iff]
      intro hempty
      have hnil := htext n
      rw [hempty] at hnil
      exact Nat.toDigits_ne_nil hnil.symm
    · rw [htext] at hc
      exact Nat.isDigit_of_mem_toDigits (by decide) (by decide) hc
    · rcases Nat.eq_zero_or_pos n with rfl | hn
      · exact Or.inl rfl
      · rw [htext]
        exact Or.inr (head?_toDigits_ne n hn)

/-! ### Machine words -/

/-- A number as a machine word, if it fits into one. -/
def word? (n : Nat) : Option UInt64 := if n < 2 ^ 64 then some (UInt64.ofNat n) else none

/-- Reads digits into a word, behind those that it holds, as long as there is room. -/
def readWord (w : UInt64) : List Char → Option UInt64
  | [] => some w
  | c :: cs => do
    let tens ← word? (w.toNat * 10)
    let w ← word? (tens.toNat + (c.toNat - '0'.toNat))
    readWord w cs

/-- The index that a name is the decimal text of, read into a word. -/
def indexWord? (id : String) : Option UInt64 :=
  if isDecimal id then readWord 0 id.toList else none

theorem word?_eq_some_iff {n : Nat} {w : UInt64} : word? n = some w ↔ w.toNat = n := by
  unfold word?
  rw [Option.ite_none_right_eq_some, Option.some.injEq]
  constructor
  · rintro ⟨hn, rfl⟩
    exact UInt64.toNat_ofNat_of_lt' hn
  · rintro rfl
    exact ⟨w.toNat_lt, UInt64.ofNat_toNat⟩

theorem word?_toNat (w : UInt64) : word? w.toNat = some w := word?_eq_some_iff.2 rfl

theorem word?_eq_none_iff {n : Nat} : word? n = none ↔ 2 ^ 64 ≤ n := by
  unfold word?
  by_cases hn : n < 2 ^ 64
  · simp [hn]
  · simp [hn, Nat.not_lt.1 hn]

theorem le_ofDigitChars : ∀ (cs : List Char) (n : Nat), n ≤ Nat.ofDigitChars 10 cs n
  | [], n => Nat.le_refl n
  | c :: cs, n => by
    rw [Nat.ofDigitChars_cons]
    have ih := le_ofDigitChars cs (10 * n + (c.toNat - '0'.toNat))
    omega

/-- **Reading into a word** gives the number if that fits, and else nothing: what has
overflowed does not fit any more when more digits follow. -/
theorem readWord_eq : ∀ (cs : List Char) (w : UInt64),
    readWord w cs = word? (Nat.ofDigitChars 10 cs w.toNat)
  | [], w => (word?_toNat w).symm
  | c :: cs, w => by
    rw [readWord, Nat.ofDigitChars_cons]
    have hle := le_ofDigitChars cs (10 * w.toNat + (c.toNat - '0'.toNat))
    have hcomm : w.toNat * 10 = 10 * w.toNat := Nat.mul_comm ..
    cases htens : word? (w.toNat * 10) with
    | none =>
      rw [word?_eq_none_iff] at htens
      exact (word?_eq_none_iff.2 (by omega)).symm
    | some tens =>
      rw [word?_eq_some_iff] at htens
      rw [Option.bind_eq_bind, Option.bind_some]
      cases hnext : word? (tens.toNat + (c.toNat - '0'.toNat)) with
      | none =>
        rw [word?_eq_none_iff] at hnext
        exact (word?_eq_none_iff.2 (by omega)).symm
      | some next =>
        rw [word?_eq_some_iff] at hnext
        rw [Option.bind_some, readWord_eq cs next, hnext, htens, hcomm]

theorem indexWord?_eq_some_iff {id : String} {w : UInt64} :
    indexWord? id = some w ↔ id = toString w.toNat := by
  unfold indexWord?
  rw [Option.ite_none_right_eq_some, readWord_eq, word?_eq_some_iff, isDecimal_iff]
  constructor
  · rintro ⟨⟨n, rfl⟩, hw⟩
    have htext : (toString n).toList = Nat.toDigits 10 n := Nat.toList_repr
    rw [hw, htext]
    exact congrArg toString Nat.ofDigitChars_ten_toDigits.symm
  · rintro rfl
    have htext : (toString w.toNat).toList = Nat.toDigits 10 w.toNat := Nat.toList_repr
    refine ⟨⟨_, rfl⟩, ?_⟩
    rw [htext]
    exact Nat.ofDigitChars_ten_toDigits.symm

/-- **A word is enough** for the items of a list that is no longer than words can count. -/
theorem items_of_indexWord? {items : List Value} (h : items.length ≤ 2 ^ 64) (id : String) :
    ((indexWord? id).bind fun w => items[w.toNat]?) = (index? id).bind fun n => items[n]? := by
  apply Option.ext
  intro v
  rw [Option.bind_eq_some_iff, Option.bind_eq_some_iff]
  constructor
  · rintro ⟨w, hw, hv⟩
    exact ⟨w.toNat, index?_eq_some_iff.2 (indexWord?_eq_some_iff.1 hw), hv⟩
  · rintro ⟨n, hn, hv⟩
    have hlt : n < 2 ^ 64 := Nat.lt_of_lt_of_le (List.getElem?_eq_some_iff.1 hv).1 h
    have hword : (UInt64.ofNat n).toNat = n := UInt64.toNat_ofNat_of_lt' hlt
    refine ⟨UInt64.ofNat n, indexWord?_eq_some_iff.2 ?_, ?_⟩
    · rw [hword]
      exact index?_eq_some_iff.1 hn
    · rw [hword]
      exact hv

end TagScope
