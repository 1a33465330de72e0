/-
# Numbers that fit

Where a number begins an argument, the longest one is read (`Path.Meets.longest`). A
number without a point and an exponent has to fit in 64 bits: the first one that
reading comes to and that does not is the error of the tag. A number with a point or
an exponent is never an error. One that is too large for a finite number is read as
an infinity, and the path is read on with it (`Path.parse_numbers`).

So a path that was read has an infinite literal exactly if reading came to a decimal
that is not below the bound `Binary64.overflow`.

Key definitions: `Numeral.Fits`, `Value.IsFinite`.
Key theorems: `Path.Meets.longest`, `Path.Meets.parse_of_not_fits`, `Path.parse_numbers`.
-/
import TagScope.Proofs.Meeting
import TagScope.Proofs.Overflow

namespace TagScope

/-- Whether a number fits: an integer in 64 bits, a decimal among the finite numbers. -/
def Numeral.Fits (n : Numeral) : Prop :=
  if n.isDecimal then n.toBinary64.IsFinite else -2 ^ 63 ≤ n.wholeValue ∧ n.wholeValue < 2 ^ 63

/-- Whether a value is no infinity and no other number that is not finite. -/
def Value.IsFinite : Value → Prop
  | .float x => x.IsFinite
  | _ => True

theorem EndsArgument.stops {after : List Char} (h : EndsArgument after) :
    Stops Numeral.Extends after := by
  obtain ⟨gap, c, rest, rfl, hgap, hc⟩ := h
  cases gap with
  | nil => rcases hc with rfl | rfl <;> exact stops_cons.2 (by decide)
  | cons b gap => exact stops_cons.2 (Written.extends_of_isBlank (hgap b List.mem_cons_self))

namespace Arg

variable {arguments : Nat → List Char → Except Fault (List Arg)} {t : Token} {n : Numeral}

theorem read_of_fits (hn : t.written = .number n) (hi : n.isDecimal = false) (hf : n.Fits) :
    ∃ i : Int64, (i.toInt : ℚ) = n.value ∧ read arguments t = .ok (.literal (.int i)) := by
  rw [Numeral.Fits, hi, if_neg (by simp)] at hf
  have hvalue : n.toInt64? = some (Int64.ofInt n.wholeValue) := if_pos hf
  refine ⟨Int64.ofInt n.wholeValue, ?_, ?_⟩
  · rw [Numeral.value_of_integer hi, Numeral.toInt64?_eq_some_iff.1 hvalue]
  · simp [read, hn, hi, hvalue]

theorem read_of_isDecimal (hn : t.written = .number n) (hd : n.isDecimal = true) :
    read arguments t = .ok (.literal (.float n.toBinary64)) := by
  simp [read, hn, hd]

theorem isDecimal_of_read {x : Binary64} (h : read arguments t = .ok (.literal (.float x))) :
    ∃ n, t.written = .number n ∧ n.isDecimal = true ∧ x = n.toBinary64 := by
  obtain ⟨start, w⟩ := t
  cases w with
  | quoted => simp [read] at h
  | list => simp [read, map_eq_ok] at h
  | reference => simp [read, map_eq_ok] at h
  | number n =>
    simp only [read] at h
    by_cases hd : n.isDecimal = true
    · rw [if_pos hd] at h
      simp only [Except.ok.injEq, Arg.literal.injEq, Value.float.injEq] at h
      exact ⟨n, rfl, hd, h.symm⟩
    · rw [if_neg hd] at h
      split at h <;> simp at h

end Arg

namespace Path

variable {levels : Nat} {t : Token} {n : Numeral}

/-- **A number that is met** stands in the tag, and no longer number begins there. -/
theorem Meets.longest {tag : List Char} (h : Meets tag levels t) (hn : t.written = .number n) :
    ∃ before after, tag = before ++ n.text ++ after ∧ t.span = .covering (width before) n.text ∧
      n.Proper ∧ ∀ m : Numeral, m.Proper → m.text <+: n.text ++ after → m.text <+: n.text := by
  obtain ⟨hchecked, before, after, htag, hstart, -, hends⟩ := h.placed
  rw [Token.text, hn] at htag
  rw [hn] at hchecked
  refine ⟨before, after, htag, ?_, hchecked, ?_⟩
  · rw [Token.span, Token.text, hn, hstart]
    rfl
  · rintro m hm ⟨more, hmore⟩
    have hscan := Numeral.scan?_append hchecked hends.stops
    rw [← hmore] at hscan
    exact Numeral.prefix_of_scan? hm hscan

/-- **An integer that is met and does not fit** is the error of the tag. -/
theorem Meets.parse_of_not_fits {tag : String} (h : Meets tag.toList levels t)
    (hn : t.written = .number n) (hi : n.isDecimal = false) (hf : ¬ n.Fits) :
    parse tag = .error ⟨.invalidNumber, t.span, tag⟩ := by
  rw [Numeral.Fits, hi, if_neg (by simp)] at hf
  have hvalue : n.toInt64? = none := if_neg hf
  have hread : Arg.read (Arg.readList levels) t = .error ⟨.invalidNumber, t.span⟩ := by
    simp [Arg.read, hn, hi, hvalue]
  exact h.parse_eq_error hread

/-- **What becomes of the numbers in a tag.** Any number that reading comes to stands in
the tag where its error would point, and is the longest that begins there. If it is an
integer, it is read as its value, or it is the error of the tag, as it fits in 64 bits or
not. If it is a decimal, it is always read as a number, which is finite exactly if the
value lies below the bound. The literals of a path that was read are what is read there,
so they are all finite exactly if all decimals that reading came to fit. -/
theorem parse_numbers (tag : String) :
    (∀ levels t n, Meets tag.toList levels t → t.written = .number n →
      (∃ before after, tag.toList = before ++ n.text ++ after ∧
        t.span = .covering (width before) n.text ∧ n.Proper ∧
        ∀ m : Numeral, m.Proper → m.text <+: n.text ++ after → m.text <+: n.text) ∧
      (n.isDecimal = false → n.Fits → ∃ i : Int64, (i.toInt : ℚ) = n.value ∧
        Arg.read (Arg.readList levels) t = .ok (.literal (.int i))) ∧
      (n.isDecimal = false → ¬ n.Fits → parse tag = .error ⟨.invalidNumber, t.span, tag⟩) ∧
      (n.isDecimal = true →
        Arg.read (Arg.readList levels) t = .ok (.literal (.float n.toBinary64)) ∧
        (n.Legible → (n.Fits ↔ |n.value| < Binary64.overflow)))) ∧
    ∀ p, parse tag = .ok p →
      (∀ v, v ∈ p.literals ↔ ∃ levels t, Meets tag.toList levels t ∧
        Arg.read (Arg.readList levels) t = .ok (.literal v)) ∧
      ((∀ v ∈ p.literals, v.IsFinite) ↔ ∀ levels t n, Meets tag.toList levels t →
        t.written = .number n → n.isDecimal = true → n.Fits) := by
  have hfits : ∀ {n : Numeral}, n.isDecimal = true → (n.Fits ↔ n.toBinary64.IsFinite) := by
    intro n hd
    rw [Numeral.Fits, if_pos hd]
  refine ⟨fun levels t n h hn => ?_, fun p hp => ⟨fun v => mem_literals_iff hp, ?_, ?_⟩⟩
  · obtain ⟨-, -, -, -, hproper, -⟩ := h.longest hn
    refine ⟨h.longest hn, fun hi hf => Arg.read_of_fits hn hi hf,
      h.parse_of_not_fits hn, fun hd => ⟨Arg.read_of_isDecimal hn hd, fun hl => ?_⟩⟩
    rw [hfits hd]
    exact Numeral.isFinite_toBinary64_iff hproper hl
  · intro hall levels t n h hn hd
    rw [hfits hd]
    exact hall _ ((mem_literals_iff hp).2 ⟨levels, t, h, Arg.read_of_isDecimal hn hd⟩)
  · intro hall v hv
    obtain ⟨levels, t, h, hread⟩ := (mem_literals_iff hp).1 hv
    match v with
    | .float x =>
      obtain ⟨n, hn, hd, rfl⟩ := Arg.isDecimal_of_read hread
      exact (hfits hd).1 (hall levels t n h hn hd)
    | .null | .bool _ | .int _ | .text _ | .list _ _ | .map _ _ | .record _ => trivial

/-- A decimal past the bound is read as an infinity. -/
theorem parse_large_decimal : parse "f(1e999)" =
    .ok (.segments [.call "f" [.literal (.float (.infinity false))]]) := by
  have hname : IsName ['f'] := ⟨by decide, List.all_eq_true.1 (by decide)⟩
  have hexponent : Numeral.Exponent.Proper ⟨'e', none, ['9', '9', '9']⟩ :=
    ⟨.inl rfl, nofun, by decide, List.all_eq_true.1 (by decide)⟩
  have hproper : Numeral.Proper ⟨none, ['1'], none, some ⟨'e', none, ['9', '9', '9']⟩⟩ :=
    ⟨nofun, List.all_eq_true.1 (by decide), nofun, .inl (by decide),
      fun e he => Option.some.inj he ▸ hexponent⟩
  have hvalue : Binary64.ofText? "1e999" = some (.infinity false) := by decide +kernel
  have hargs : Arg.ListSpelling "1e999".toList [.literal (.float (.infinity false))] :=
    @Arg.ListSpelling.some [] "1e999".toList [] _ [] nofun (.decimal hproper rfl hvalue)
      (.last nofun)
  have htag : TagSpelling "f(1e999)".toList
      (.segments [.call "f" [.literal (.float (.infinity false))]]) :=
    ⟨[], _, [], rfl, nofun, nofun, .segments (.last (.call hname hargs))⟩
  exact parse_of_tagSpelling htag (by decide)

/-- Reading came to a decimal that does not fit, and went on. -/
theorem parse_numbers_large : ∃ p, parse "f(1e999)" = .ok p ∧
    ∃ levels t n, Meets "f(1e999)".toList levels t ∧ t.written = .number n ∧
      n.isDecimal = true ∧ ¬ n.Fits := by
  refine ⟨_, parse_large_decimal, ?_⟩
  have hiff := ((parse_numbers "f(1e999)").2 _ parse_large_decimal).2
  by_contra hnone
  have hall := hiff.2 fun levels t n h hn hd => by
    by_contra hf
    exact hnone ⟨levels, t, n, h, hn, hd, hf⟩
  exact hall _ (List.mem_singleton_self _)

/-- **Not every literal that is read is finite.** -/
theorem not_all_finite : ¬ ∀ tag p, parse tag = .ok p → ∀ v ∈ p.literals, v.IsFinite :=
  fun hall => hall _ _ parse_large_decimal _ (List.mem_singleton_self _)

end Path

end TagScope
