/-
# Numbers in a tag

The scanner of numbers takes exactly the numbers of the grammar: what it finds
is proper (`Numeral.proper_of_scan?`), and a proper number is found whole
wherever what follows cannot be part of it (`Numeral.scan?_append`). No longer
number begins where it was found (`Numeral.prefix_of_scan?`).

Key definitions: `Numeral.Extends`.
Key theorems: `Numeral.scan?_append`, `Numeral.proper_of_scan?`, `Numeral.prefix_of_scan?`,
`Numeral.toInt64?_eq_some_iff`.
-/
import TagScope.Proofs.Words

namespace TagScope
namespace Numeral

/-- What could make a number longer that it stands behind. -/
def Extends (c : Char) : Bool := c.isDigit || c = '.' || c = 'e' || c = 'E'

theorem Stops.isDigit {cs : List Char} (h : Stops Extends cs) : Stops Char.isDigit cs :=
  h.mono fun c hc => by simp [Extends, hc]

/-! ### The parts of a number -/

theorem scanDigits_append_stops {ds rest : List Char} (h : Digits ds)
    (hr : Stops Char.isDigit rest) : scanDigits (ds ++ rest) = (ds, rest) := by
  rw [scanDigits, takeWhile_append_stops h hr, dropWhile_append_stops h hr]

theorem digits_scanDigits (cs : List Char) : Digits (scanDigits cs).1 :=
  fun _ hc => List.mem_takeWhile_imp hc

theorem scanSign_of_stops {cs : List Char} (h : Stops (fun c => c = '-' || c = '+') cs) :
    scanSign cs = (none, cs) := by
  unfold scanSign
  split
  · simp [Stops] at h
  · simp [Stops] at h
  · rfl

theorem scanSign_toList_append {sign : Option Char} {cs : List Char}
    (hs : ∀ c ∈ sign, c = '-' ∨ c = '+') (h : Stops (fun c => c = '-' || c = '+') cs) :
    scanSign (sign.toList ++ cs) = (sign, cs) := by
  cases sign with
  | none => exact scanSign_of_stops h
  | some c => rcases hs c rfl with rfl | rfl <;> rfl

theorem sign_scanSign (cs : List Char) : ∀ c ∈ (scanSign cs).1, c = '-' ∨ c = '+' := by
  unfold scanSign
  split <;> simp

theorem scanFraction_of_ne {cs : List Char} (h : ∀ c ∈ cs.head?, c ≠ '.') :
    scanFraction cs = (none, cs) := by
  unfold scanFraction
  split
  · simp at h
  · rfl

theorem scanFraction_append_stops {fraction : Option (List Char)} {rest : List Char}
    (hf : ∀ ds ∈ fraction, Digits ds) (hr : Stops Char.isDigit rest)
    (hp : ∀ c ∈ rest.head?, c ≠ '.') :
    scanFraction (fraction.elim [] ('.' :: ·) ++ rest) = (fraction, rest) := by
  cases fraction with
  | none => exact scanFraction_of_ne hp
  | some ds =>
    show (scanDigits (ds ++ rest)).map some id = _
    rw [scanDigits_append_stops (hf ds rfl) hr]
    rfl

theorem scanExponent_of_stops {cs : List Char} (h : Stops (fun c => c = 'e' || c = 'E') cs) :
    scanExponent cs = (none, cs) := by
  cases cs with
  | nil => rfl
  | cons c cs =>
    have hc := stops_cons.1 h
    rw [scanExponent, if_neg (by simpa using hc)]

theorem stops_digits {ds : List Char} (h : Digits ds) (hne : ds ≠ []) (rest : List Char) :
    Stops (fun c => c = '-' || c = '+') (ds ++ rest) := by
  cases ds with
  | nil => exact absurd rfl hne
  | cons d ds =>
    have hd := h d List.mem_cons_self
    have h₁ := ne_of_isDigit hd (d := '-') (by decide)
    have h₂ := ne_of_isDigit hd (d := '+') (by decide)
    exact stops_cons.2 (by simp [h₁, h₂])

theorem scanExponent_text_append {e : Exponent} (he : e.Proper) {rest : List Char}
    (hr : Stops Char.isDigit rest) : scanExponent (e.text ++ rest) = (some e, rest) := by
  obtain ⟨letter, sign, digits⟩ := e
  obtain ⟨hl, hs, hne, hd⟩ := he
  simp only at hl hs hne hd
  have hletter : (letter = 'e' || letter = 'E') = true := by simpa using hl
  have hsign := stops_digits hd hne rest
  have hempty : digits.isEmpty = false := by simpa using hne
  simp only [Exponent.text, List.cons_append, List.append_assoc, scanExponent, hletter, if_true,
    scanSign_toList_append hs hsign, scanDigits_append_stops hd hr, hempty, Bool.false_eq_true,
    if_false]

theorem proper_scanExponent (cs : List Char) : ∀ e ∈ (scanExponent cs).1, e.Proper := by
  intro e he
  unfold scanExponent at he
  split at he
  · simp at he
  · rename_i letter rest
    split at he
    · rename_i hl
      dsimp only at he
      split at he
      · simp at he
      · rename_i hne
        simp only [Option.mem_def, Option.some.injEq] at he
        subst he
        exact ⟨by simpa using hl, sign_scanSign rest, by simpa using hne, digits_scanDigits _⟩
    · simp at he

/-! ### The whole number -/

theorem stops_exponent_text {e : Exponent} (he : e.Proper) (rest : List Char) :
    Stops Char.isDigit (e.text ++ rest) ∧ ∀ c ∈ (e.text ++ rest).head?, c ≠ '.' := by
  rcases he.letter with h | h <;> simp [Exponent.text, h, Stops]

theorem stops_exponent {n : Numeral} (hn : n.Proper) {rest : List Char} (hr : Stops Extends rest) :
    Stops Char.isDigit (n.exponent.elim [] Exponent.text ++ rest) ∧
      ∀ c ∈ (n.exponent.elim [] Exponent.text ++ rest).head?, c ≠ '.' := by
  cases he : n.exponent with
  | none =>
    refine ⟨Stops.isDigit hr, fun c hc hdot => ?_⟩
    have := hr c hc
    simp [Extends, hdot] at this
  | some e => exact stops_exponent_text (hn.exponent e he) rest

theorem stops_fraction {fraction : Option (List Char)} {rest : List Char}
    (hr : Stops Char.isDigit rest) :
    Stops Char.isDigit (fraction.elim [] ('.' :: ·) ++ rest) := by
  cases fraction with
  | none => exact hr
  | some ds => exact stops_cons.2 (by decide)

theorem stops_sign {n : Numeral} (hn : n.Proper) (rest : List Char) :
    Stops (fun c => c = '-' || c = '+')
      (n.whole ++ (n.fraction.elim [] ('.' :: ·) ++ rest)) := by
  by_cases hwhole : n.whole = []
  · obtain ⟨ds, hds, -⟩ := hn.nonempty.resolve_left (not_not_intro hwhole)
    rw [hwhole, Option.mem_def.1 hds]
    exact stops_cons.2 (by decide)
  · exact stops_digits hn.whole hwhole _

/-- **A proper number is found whole** if what follows cannot make it longer. -/
theorem scan?_append {n : Numeral} (hn : n.Proper) {rest : List Char} (hr : Stops Extends rest) :
    scan? (n.text ++ rest) = some (n, rest) := by
  obtain ⟨sign, whole, fraction, exponent⟩ := n
  obtain ⟨hexp, hdot⟩ := stops_exponent hn hr
  have hsign := hn.sign
  have hwhole := hn.whole
  have hfraction := hn.fraction
  have hne := hn.nonempty
  simp only at hexp hdot hsign hwhole hfraction hne
  have hstop := stops_sign hn (exponent.elim [] Exponent.text ++ rest)
  have hexponent : scanExponent (exponent.elim [] Exponent.text ++ rest) = (exponent, rest) := by
    cases exponent with
    | none => exact scanExponent_of_stops (hr.mono fun c hc => by
        simp only [Bool.or_eq_true, decide_eq_true_eq] at hc
        rcases hc with rfl | rfl <;> decide)
    | some e => exact scanExponent_text_append (hn.exponent e rfl) (Stops.isDigit hr)
  have hdigit : (whole.isEmpty && (fraction.getD []).isEmpty) = false := by
    rcases hne with h | ⟨ds, rfl, h⟩ <;> simp [h]
  simp only [text, List.append_assoc, scan?, scanSign_toList_append hsign hstop,
    scanDigits_append_stops hwhole (stops_fraction hexp),
    scanFraction_append_stops hfraction hexp hdot, hdigit, Bool.false_eq_true, if_false, hexponent]

/-! ### The longest number -/

theorem scanDigits_append_digits {ds : List Char} (h : Digits ds) (rest : List Char) :
    scanDigits (ds ++ rest) = (ds ++ (scanDigits rest).1, (scanDigits rest).2) := by
  rw [scanDigits, List.takeWhile_append_of_pos h, List.dropWhile_append_of_pos h]
  rfl

theorem prefix_of_scanExponent {e : Exponent} (he : e.Proper) (more : List Char) :
    ∃ e', (scanExponent (e.text ++ more)).1 = some e' ∧ e.text <+: e'.text := by
  obtain ⟨letter, sign, digits⟩ := e
  obtain ⟨hl, hs, hne, hd⟩ := he
  simp only at hl hs hne hd
  have hletter : (letter = 'e' || letter = 'E') = true := by simpa using hl
  have hempty : (digits ++ (scanDigits more).1).isEmpty = false := by simp [hne]
  refine ⟨⟨letter, sign, digits ++ (scanDigits more).1⟩, ?_, (scanDigits more).1, by
    simp [Exponent.text]⟩
  simp only [Exponent.text, List.cons_append, List.append_assoc, scanExponent, hletter, if_true,
    scanSign_toList_append hs (stops_digits hd hne more), scanDigits_append_digits hd, hempty,
    Bool.false_eq_true, if_false]

/-- **No longer number begins there**: every number that a text begins with begins
the number that is found. -/
theorem prefix_of_scan? {m n : Numeral} (hm : m.Proper) {more rest : List Char}
    (h : scan? (m.text ++ more) = some (n, rest)) : m.text <+: n.text := by
  have hstop := stops_sign hm (m.exponent.elim [] Exponent.text ++ more)
  obtain ⟨sign, whole, fraction, exponent⟩ := m
  have hwhole := hm.whole
  have hfraction := hm.fraction
  have hexponent := hm.exponent
  simp only at hstop hwhole hfraction hexponent
  simp only [text, List.append_assoc, scan?, scanSign_toList_append hm.sign hstop,
    Option.ite_none_left_eq_some, Option.some.injEq, Prod.mk.injEq] at h
  obtain ⟨-, rfl, -⟩ := h
  cases fraction with
  | some ds =>
    have hpoint : ∀ cs : List Char, scanDigits (whole ++ '.' :: cs) = (whole, '.' :: cs) := fun cs =>
      scanDigits_append_stops hwhole (stops_cons.2 (by decide))
    have hds := fun cs => scanDigits_append_digits (hfraction ds rfl) cs
    simp only [Option.elim_some, List.cons_append, hpoint, scanFraction, hds, Prod.map, id_eq]
    cases exponent with
    | none => simp [text]
    | some e =>
      have hstops := (stops_exponent_text (hexponent e rfl) more).1
      obtain ⟨e', he', hprefix⟩ := prefix_of_scanExponent (hexponent e rfl) more
      have hnone := @scanDigits_append_stops [] _ (by simp [Digits]) hstops
      rw [List.nil_append] at hnone
      simp only [Option.elim_some, hnone, he']
      simpa [text] using hprefix
  | none =>
    simp only [Option.elim_none, List.nil_append]
    cases exponent with
    | none =>
      simp only [Option.elim_none, List.nil_append, scanDigits_append_digits hwhole]
      simp [text]
    | some e =>
      obtain ⟨hstops, hdot⟩ := stops_exponent_text (hexponent e rfl) more
      obtain ⟨e', he', hprefix⟩ := prefix_of_scanExponent (hexponent e rfl) more
      simp only [Option.elim_some, scanDigits_append_stops hwhole hstops,
        scanFraction_of_ne hdot, he']
      simpa [text] using hprefix

theorem digits_scanFraction (cs : List Char) : ∀ ds ∈ (scanFraction cs).1, Digits ds := by
  intro ds hds
  unfold scanFraction at hds
  split at hds
  · simp only [Prod.map, Option.mem_def, Option.some.injEq] at hds
    exact hds ▸ digits_scanDigits _
  · simp at hds

theorem proper_of_scan? {cs rest : List Char} {n : Numeral} (h : scan? cs = some (n, rest)) :
    n.Proper := by
  simp only [scan?, Option.ite_none_left_eq_some, Option.some.injEq, Prod.mk.injEq] at h
  obtain ⟨hne, rfl, -⟩ := h
  refine ⟨sign_scanSign cs, digits_scanDigits _, digits_scanFraction _, ?_, proper_scanExponent _⟩
  simp only [Bool.and_eq_true, List.isEmpty_iff, not_and_or] at hne
  rcases hne with hne | hne
  · exact Or.inl hne
  · right
    cases hf : (scanFraction (scanDigits (scanSign cs).2).2).1 with
    | none => simp [hf] at hne
    | some ds => exact ⟨ds, rfl, by simpa [hf] using hne⟩

theorem scan?_eq_none {c : Char} {cs : List Char} (hd : c.isDigit = false)
    (hs : c ≠ '-' ∧ c ≠ '+') (hp : c = '.' → Stops Char.isDigit cs) : scan? (c :: cs) = none := by
  have hsign : scanSign (c :: cs) = (none, c :: cs) :=
    scanSign_of_stops (stops_cons.2 (by simp [hs]))
  have hdigits : scanDigits (c :: cs) = ([], c :: cs) :=
    @scanDigits_append_stops [] _ (by simp [Digits]) (stops_cons.2 hd)
  have hfraction : ((scanFraction (c :: cs)).1.getD []).isEmpty = true := by
    by_cases hc : c = '.'
    · subst hc
      show (((scanDigits cs).map some id).1.getD []).isEmpty = true
      rw [← List.nil_append cs, scanDigits_append_stops (by simp [Digits]) (hp rfl)]
      rfl
    · rw [scanFraction_of_ne (by simpa using hc)]
      rfl
  simp only [scan?, hsign, hdigits, hfraction, List.isEmpty_nil, Bool.and_self, if_true]

theorem stops_of_scan?_eq_none {c : Char} {cs : List Char} (h : scan? (c :: cs) = none) :
    c.isDigit = false := by
  cases hd : c.isDigit with
  | false => rfl
  | true =>
    have h₁ := ne_of_isDigit hd (d := '-') (by decide)
    have h₂ := ne_of_isDigit hd (d := '+') (by decide)
    have hsign : scanSign (c :: cs) = (none, c :: cs) :=
      scanSign_of_stops (stops_cons.2 (by simp [h₁, h₂]))
    have hne : (scanDigits (c :: cs)).1 = c :: cs.takeWhile Char.isDigit := by
      rw [scanDigits, List.takeWhile_cons, if_pos hd]
    simp [scan?, hsign, hne] at h

theorem text_head {n : Numeral} (hn : n.Proper) : ∃ c cs, n.text = c :: cs ∧
    (c.isDigit = true ∨ c = '-' ∨ c = '+' ∨ c = '.') := by
  obtain ⟨sign, whole, fraction, exponent⟩ := n
  cases sign with
  | some c => exact ⟨c, _, rfl, (hn.sign c rfl).elim (by tauto) (by tauto)⟩
  | none =>
    cases whole with
    | cons d ds => exact ⟨d, _, rfl, Or.inl (hn.whole d List.mem_cons_self)⟩
    | nil =>
      cases fraction with
      | some ds => exact ⟨'.', _, rfl, by tauto⟩
      | none =>
        have := hn.nonempty
        simp at this

/-! ### Values -/

theorem ofText?_text {n : Numeral} (hn : n.Proper) :
    Binary64.ofText? (String.ofList n.text) = some n.toBinary64 := by
  have h := scan?_append hn (stops_nil _)
  rw [List.append_nil] at h
  rw [Binary64.ofText?, String.toList_ofList, h]

/-- **An integer has a value exactly when it fits in 64 bits.** -/
theorem toInt64?_eq_some_iff {n : Numeral} {i : Int64} :
    n.toInt64? = some i ↔ i.toInt = n.wholeValue := by
  unfold toInt64?
  constructor
  · intro h
    split at h
    · rename_i hr
      simp only [Option.some.injEq] at h
      rw [← h]
      exact Int64.toInt_ofInt_of_le hr.1 hr.2
    · simp at h
  · intro h
    have hlo := i.le_toInt
    have hhi := i.toInt_lt
    rw [h] at hlo hhi
    rw [if_pos ⟨hlo, hhi⟩, ← h, Int64.ofInt_toInt]

end Numeral
end TagScope
