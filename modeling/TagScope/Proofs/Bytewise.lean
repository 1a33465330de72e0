/-
# Numbers by bytes

A single byte of a text can be looked at anywhere. The byte of an ASCII character is that
character, and no byte of any other character is one, so where a character begins a class
of ASCII characters can be tested on the byte (`any_byte?`).

A number is made of ASCII characters. Where one starts, the bytes are looked at one by one,
and the number ends where `Numeral.scan?` says it does, whatever follows it.

Key definitions: `byte?`, `startsNumber`, `scanDigits`, `scanNumber`.
Key theorems: `any_byte?`, `startsNumber_eq`, `scanNumber_eq`.
-/
import TagScope.Proofs.Slices
import TagScope.Proofs.Splitting

namespace TagScope
namespace InBytes

variable {src cs rest : List Char} {c : Char} {pos : Nat}

/-! ### Bytes -/

/-- The byte at `pos`, as the character that it is in ASCII. -/
def byte? (src : List Char) (pos : Nat) : Option Char :=
  ((src.flatMap String.utf8EncodeChar)[pos]?).map fun b => Char.ofNat b.toNat

theorem length_flatMap_utf8EncodeChar : ∀ cs : List Char,
    (cs.flatMap String.utf8EncodeChar).length = width cs
  | [] => rfl
  | c :: cs => by
    rw [List.flatMap_cons, List.length_append, String.length_utf8EncodeChar,
      length_flatMap_utf8EncodeChar cs, width_cons]

/-- The first byte of a character is the character, or is outside of ASCII as the character
is. -/
theorem utf8EncodeChar_eq_cons (c : Char) : ∃ b rest, String.utf8EncodeChar c = b :: rest ∧
    (c.toNat < 128 ∧ b.toNat = c.toNat ∨ 128 ≤ c.toNat ∧ 128 ≤ b.toNat) := by
  have hv : c.val.toNat = c.toNat := rfl
  unfold String.utf8EncodeChar
  dsimp only
  rw [hv]
  by_cases h₁ : c.toNat ≤ 0x7f
  · rw [if_pos h₁]
    refine ⟨_, _, rfl, Or.inl ⟨by omega, ?_⟩⟩
    rw [UInt8.toNat_ofNat', Nat.mod_eq_of_lt (by omega)]
  · rw [if_neg h₁]
    by_cases h₂ : c.toNat ≤ 0x7ff
    · rw [if_pos h₂]
      refine ⟨_, _, rfl, Or.inr ⟨by omega, ?_⟩⟩
      rw [UInt8.toNat_ofNat']
      omega
    · rw [if_neg h₂]
      by_cases h₃ : c.toNat ≤ 0xffff
      · rw [if_pos h₃]
        refine ⟨_, _, rfl, Or.inr ⟨by omega, ?_⟩⟩
        rw [UInt8.toNat_ofNat']
        omega
      · rw [if_neg h₃]
        refine ⟨_, _, rfl, Or.inr ⟨by omega, ?_⟩⟩
        rw [UInt8.toNat_ofNat']
        omega

theorem toNat_ofNat_of_lt {n : Nat} (h : n < 256) : (Char.ofNat n).toNat = n := by
  have hvalid : n.isValidChar := Or.inl (by omega)
  rw [Char.ofNat, dif_pos hvalid]
  rfl

/-- **Where a character begins**, a class of ASCII characters can be tested on the byte. -/
theorem any_byte? {p : Char → Bool} (hp : ∀ c, p c = true → c.toNat < 128)
    (h : tail? src pos = some cs) : (byte? src pos).any p = cs.head?.any p := by
  obtain ⟨before, rfl, rfl⟩ := tail?_eq_some_iff.1 h
  have hlength := length_flatMap_utf8EncodeChar before
  have hbyte : ((before ++ cs).flatMap String.utf8EncodeChar)[width before]? =
      (cs.flatMap String.utf8EncodeChar).head? := by
    rw [List.flatMap_append, List.getElem?_append_right (Nat.le_of_eq hlength), hlength,
      Nat.sub_self, List.head?_eq_getElem?]
  rw [byte?, hbyte]
  cases cs with
  | nil => rfl
  | cons c cs =>
    obtain ⟨b, rest, heq, hb⟩ := utf8EncodeChar_eq_cons c
    rw [List.flatMap_cons, heq]
    show p (Char.ofNat b.toNat) = p c
    rcases hb with ⟨-, hsame⟩ | ⟨hc, hb⟩
    · rw [hsame, Char.ofNat_toNat]
    · -- neither is in ASCII
      have hcode := toNat_ofNat_of_lt b.toNat_lt
      have hbyte : p (Char.ofNat b.toNat) = false :=
        Bool.eq_false_iff.2 fun h => absurd (hp _ h) (by omega)
      have hchar : p c = false := Bool.eq_false_iff.2 fun h => absurd (hp _ h) (by omega)
      rw [hbyte, hchar]

theorem lt_of_any_byte? {p : Char → Bool} (h : (byte? src pos).any p = true) :
    pos < width src := by
  rw [← length_flatMap_utf8EncodeChar]
  unfold byte? at h
  cases hb : (src.flatMap String.utf8EncodeChar)[pos]? with
  | none => simp [hb] at h
  | some b => exact (List.getElem?_eq_some_iff.1 hb).1

/-! ### Numbers -/

theorem exists_of_any_head? {p : Char → Bool} (h : cs.head?.any p = true) :
    ∃ c rest, cs = c :: rest ∧ p c = true := by
  cases cs with
  | nil => simp at h
  | cons c rest => exact ⟨c, rest, rfl, by simpa using h⟩

/-- Whether a text starts like a number. -/
def startsNumber : List Char → Bool
  | [] => false
  | c :: rest =>
    if c.isDigit then true
    else if c = '-' || c = '+' then
      match rest with
      | [] => false
      | d :: rest => if d.isDigit then true else d = '.' && rest.head?.any Char.isDigit
    else c = '.' && rest.head?.any Char.isDigit

/-- Where the digits end that begin at `pos`. -/
def scanDigits (src : List Char) (pos : Nat) : Nat :=
  if _h : (byte? src pos).any Char.isDigit = true then scanDigits src (pos + 1) else pos
termination_by width src - pos
decreasing_by
  have hlt := lt_of_any_byte? _h
  omega

/-- Behind the sign at `pos`, if there is one. -/
def scanSign (src : List Char) (pos : Nat) : Nat :=
  if (byte? src pos).any fun c => c = '-' || c = '+' then pos + 1 else pos

/-- Behind the point at `pos` and its digits, and whether there is a point. -/
def scanFraction (src : List Char) (pos : Nat) : Nat × Bool :=
  if (byte? src pos).any fun c => c = '.' then (scanDigits src (pos + 1), true) else (pos, false)

/-- Behind the exponent at `pos`, and whether there is one. -/
def scanExponent (src : List Char) (pos : Nat) : Nat × Bool :=
  if (byte? src pos).any fun c => c = 'e' || c = 'E' then
    let digits := scanSign src (pos + 1)
    if (byte? src digits).any Char.isDigit then (scanDigits src digits, true) else (pos, false)
  else (pos, false)

/-- Where the number ends that begins at `start`, and its kind. -/
def scanNumber (src : List Char) (start : Nat) : Nat × ArgumentKind :=
  let (fraction, point) := scanFraction src (scanDigits src (scanSign src start))
  let (stop, exponent) := scanExponent src fraction
  (stop, if point || exponent then .decimal else .integer)

/-- Behind a sign there must be a digit, or a point and a digit. -/
theorem startsNumber_iff : startsNumber cs = true ↔ StartsNumber cs := by
  constructor
  · intro h
    unfold startsNumber at h
    split at h
    · simp at h
    · rename_i c rest
      split at h
      · rename_i hdigit
        exact ⟨none, [], c, rest, by simp, Or.inl rfl, hdigit, rfl⟩
      · split at h
        · rename_i hsign
          have hsign' : ∀ d ∈ some c, d = '-' ∨ d = '+' := by simpa using hsign
          split at h
          · simp at h
          · rename_i d rest
            split at h
            · rename_i hdigit
              exact ⟨some c, [], d, rest, hsign', Or.inl rfl, hdigit, rfl⟩
            · obtain ⟨hpoint, hany⟩ := Bool.and_eq_true_iff.1 h
              obtain rfl := of_decide_eq_true hpoint
              obtain ⟨e, more, rfl, hdigit⟩ := exists_of_any_head? hany
              exact ⟨some c, ['.'], e, more, hsign', Or.inr rfl, hdigit, rfl⟩
        · obtain ⟨hpoint, hany⟩ := Bool.and_eq_true_iff.1 h
          obtain rfl := of_decide_eq_true hpoint
          obtain ⟨e, more, rfl, hdigit⟩ := exists_of_any_head? hany
          exact ⟨none, ['.'], e, more, by simp, Or.inr rfl, hdigit, rfl⟩
  · rintro ⟨sign, point, d, more, hsign, rfl | rfl, hd, rfl⟩
    · cases sign with
      | none => simp [startsNumber, hd]
      | some c => rcases hsign c rfl with rfl | rfl <;> simp [startsNumber, hd]
    · cases sign with
      | none => simp [startsNumber, hd]
      | some c => rcases hsign c rfl with rfl | rfl <;> simp [startsNumber, hd]

/-- **A number starts** exactly where one is found. -/
theorem startsNumber_eq (cs : List Char) : startsNumber cs = (Numeral.scan? cs).isSome := by
  by_cases h : StartsNumber cs
  · rw [startsNumber_iff.2 h, Option.isSome_iff_ne_none.2 h.scan?_ne_none]
  · rw [Bool.eq_false_iff.2 fun hs => h (startsNumber_iff.1 hs), Numeral.scan?_eq_none_iff.2 h]
    rfl

theorem toNat_lt_of_isDigit (h : c.isDigit = true) : c.toNat < 128 := by
  simp only [Char.isDigit, Bool.and_eq_true, decide_eq_true_eq, ge_iff_le] at h
  exact Nat.lt_of_le_of_lt (UInt32.le_iff_toNat_le.1 h.2) (by decide)

theorem toNat_lt_of_isSign (h : (c = '-' || c = '+') = true) : c.toNat < 128 := by
  simp only [Bool.or_eq_true, decide_eq_true_eq] at h
  rcases h with rfl | rfl <;> decide

theorem toNat_lt_of_isPoint (h : decide (c = '.') = true) : c.toNat < 128 := by
  obtain rfl := of_decide_eq_true h
  decide

theorem toNat_lt_of_isExponent (h : (c = 'e' || c = 'E') = true) : c.toNat < 128 := by
  simp only [Bool.or_eq_true, decide_eq_true_eq] at h
  rcases h with rfl | rfl <;> decide

theorem utf8Size_of_lt (h : c.toNat < 128) : c.utf8Size = 1 := by
  have hle : c.val.toNat ≤ 127 := Nat.le_of_lt_succ h
  exact if_pos (UInt32.le_iff_toNat_le.2 hle)

theorem scanDigits_eq : ∀ {cs : List Char} {pos : Nat}, tail? src pos = some cs →
    scanDigits src pos = pos + width (Numeral.scanDigits cs).1
  | [], pos, h => by
    have hbyte := any_byte? (fun _ => toNat_lt_of_isDigit) h
    rw [scanDigits, dif_neg (by rw [hbyte]; simp)]
    rfl
  | c :: cs, pos, h => by
    have hbyte := any_byte? (fun _ => toNat_lt_of_isDigit) h
    simp only [List.head?_cons, Option.any_some] at hbyte
    rw [scanDigits, hbyte, Numeral.scanDigits, List.takeWhile_cons]
    by_cases hdigit : c.isDigit = true
    · have hsize := utf8Size_of_lt (toNat_lt_of_isDigit hdigit)
      have hnext := tail?_next h
      rw [hsize] at hnext
      rw [dif_pos hdigit, if_pos hdigit, scanDigits_eq hnext, width_cons, hsize, Nat.add_assoc]
      rfl
    · rw [dif_neg hdigit, if_neg hdigit]
      rfl

theorem scanSign_eq (h : tail? src pos = some cs) :
    scanSign src pos = pos + width (Numeral.scanSign cs).1.toList := by
  rw [scanSign, any_byte? (fun _ => toNat_lt_of_isSign) h]
  cases cs with
  | nil => rfl
  | cons c rest =>
    by_cases hminus : c = '-'
    · subst hminus
      rfl
    · by_cases hplus : c = '+'
      · subst hplus
        rfl
      · rw [Numeral.scanSign_of_stops (stops_cons.2 (by simp [hminus, hplus])),
          if_neg (by simp [hminus, hplus])]
        rfl

theorem scanFraction_eq (h : tail? src pos = some cs) : scanFraction src pos =
    (pos + width ((Numeral.scanFraction cs).1.elim [] ('.' :: ·)),
      (Numeral.scanFraction cs).1.isSome) := by
  rw [scanFraction, any_byte? (fun _ => toNat_lt_of_isPoint) h]
  cases cs with
  | nil => rfl
  | cons c rest =>
    by_cases hpoint : c = '.'
    · subst hpoint
      have hdigits := scanDigits_eq (tail?_next h)
      rw [Nat.add_assoc] at hdigits
      exact congrArg (·, true) hdigits
    · rw [Numeral.scanFraction_of_ne (by simpa using hpoint), if_neg (by simpa using hpoint)]
      rfl

theorem isEmpty_scanDigits (cs : List Char) :
    (Numeral.scanDigits cs).1.isEmpty = !cs.head?.any Char.isDigit := by
  cases cs with
  | nil => rfl
  | cons c cs =>
    rw [Numeral.scanDigits, List.takeWhile_cons]
    cases hc : c.isDigit <;> simp [hc]

theorem scanExponent_eq (h : tail? src pos = some cs) : scanExponent src pos =
    (pos + width ((Numeral.scanExponent cs).1.elim [] Numeral.Exponent.text),
      (Numeral.scanExponent cs).1.isSome) := by
  rw [scanExponent, any_byte? (fun _ => toNat_lt_of_isExponent) h]
  cases cs with
  | nil => rfl
  | cons letter rest =>
    by_cases hletter : (letter = 'e' || letter = 'E') = true
    · have hsize := utf8Size_of_lt (toNat_lt_of_isExponent hletter)
      have hnext := tail?_next h
      rw [hsize] at hnext
      have hsign := scanSign_eq hnext
      have hdigits : tail? src (scanSign src (pos + 1)) = some (Numeral.scanSign rest).2 := by
        rw [hsign]
        exact tail?_add (by rw [hnext, Numeral.scanSign_append])
      have hempty := isEmpty_scanDigits (Numeral.scanSign rest).2
      simp only [List.head?_cons, Option.any_some, hletter, if_true,
        any_byte? (fun _ => toNat_lt_of_isDigit) hdigits, Numeral.scanExponent, hempty]
      cases hany : (Numeral.scanSign rest).2.head?.any Char.isDigit with
      | false => rfl
      | true =>
        simp only [if_true, Bool.not_true, Bool.false_eq_true, if_false, scanDigits_eq hdigits,
          Option.elim_some, Numeral.Exponent.text, width_append, width_cons, hsize,
          Option.isSome_some]
        rw [hsign, Nat.add_assoc, Nat.add_assoc, Nat.add_assoc]
    · have hstops : Stops (fun c => c = 'e' || c = 'E') (letter :: rest) :=
        stops_cons.2 (by simpa using hletter)
      rw [Numeral.scanExponent_of_stops hstops, if_neg (by simpa using hletter)]
      rfl

/-- **A number ends** where it is found to end. -/
theorem scanNumber_eq {n : Numeral} (h : tail? src pos = some cs)
    (hn : Numeral.scan? cs = some (n, rest)) :
    scanNumber src pos = (pos + width n.text, (Written.number n).kind) := by
  simp only [Numeral.scan?, Option.ite_none_left_eq_some, Option.some.injEq, Prod.mk.injEq] at hn
  obtain ⟨-, rfl, -⟩ := hn
  have hsign := scanSign_eq h
  have hwhole : tail? src (scanSign src pos) = some (Numeral.scanSign cs).2 := by
    rw [hsign]
    exact tail?_add (by rw [h, Numeral.scanSign_append])
  have hdigits := scanDigits_eq hwhole
  have hpoint : tail? src (scanDigits src (scanSign src pos)) =
      some (Numeral.scanDigits (Numeral.scanSign cs).2).2 := by
    rw [hdigits]
    exact tail?_add (by rw [hwhole, Numeral.scanDigits_append])
  have hfraction := scanFraction_eq hpoint
  have hexponent : tail? src (scanFraction src (scanDigits src (scanSign src pos))).1 =
      some (Numeral.scanFraction (Numeral.scanDigits (Numeral.scanSign cs).2).2).2 := by
    rw [hfraction]
    exact tail?_add (by rw [hpoint, Numeral.scanFraction_append])
  have hstop := scanExponent_eq hexponent
  rw [hfraction, hdigits, hsign] at hstop
  rw [hdigits, hsign] at hfraction
  rw [hsign] at hdigits
  simp only [scanNumber, hsign, hdigits, hfraction, hstop]
  simp only [Written.kind, Numeral.isDecimal, Numeral.text, width_append, Nat.add_assoc]
  rfl

end InBytes
end TagScope
