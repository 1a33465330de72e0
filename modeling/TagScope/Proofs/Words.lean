/-
# Where a word ends

A word of a tag is the longest run of characters of one class. It ends where
the next character is of another class or the text ends (`Stops`), so that what
is read is the word as soon as what follows stops it. The classes that meet in
a tag are apart: no white space belongs to a name, and no character of a name
or of a number opens or closes anything.

Key definitions: `Stops`, `Ranges.apart`.
Key theorems: `takeWhile_append_stops`, `dropWhile_append_stops`, `isNameChar_of_isBlank`.
-/
import Mathlib.Data.List.DropRight
import TagScope.Proofs.Spelling

namespace TagScope

/-! ### Runs of a class -/

/-- The text does not begin with a character of the class. -/
def Stops (p : Char → Bool) (cs : List Char) : Prop := ∀ c ∈ cs.head?, p c = false

theorem stops_nil (p : Char → Bool) : Stops p [] := by simp [Stops]

theorem stops_cons {p : Char → Bool} {c : Char} {cs : List Char} :
    Stops p (c :: cs) ↔ p c = false := by simp [Stops]

theorem Stops.mono {p q : Char → Bool} {cs : List Char} (h : Stops q cs)
    (hpq : ∀ c, p c = true → q c = true) : Stops p cs := by
  intro c hc
  have hq := h c hc
  cases hp : p c with
  | false => rfl
  | true => rw [hpq c hp] at hq; exact absurd hq (by simp)

theorem takeWhile_stops {p : Char → Bool} : ∀ {cs : List Char}, Stops p cs → cs.takeWhile p = []
  | [], _ => rfl
  | c :: cs, h => by rw [List.takeWhile_cons, stops_cons.1 h]; rfl

theorem dropWhile_stops {p : Char → Bool} : ∀ {cs : List Char}, Stops p cs → cs.dropWhile p = cs
  | [], _ => rfl
  | c :: cs, h => by rw [List.dropWhile_cons, stops_cons.1 h]; rfl

theorem takeWhile_append_stops {p : Char → Bool} {cs rest : List Char}
    (h : ∀ c ∈ cs, p c = true) (hr : Stops p rest) : (cs ++ rest).takeWhile p = cs := by
  rw [List.takeWhile_append_of_pos h, takeWhile_stops hr, List.append_nil]

theorem dropWhile_append_stops {p : Char → Bool} {cs rest : List Char}
    (h : ∀ c ∈ cs, p c = true) (hr : Stops p rest) : (cs ++ rest).dropWhile p = rest := by
  rw [List.dropWhile_append_of_pos h, dropWhile_stops hr]

theorem stops_dropWhile (p : Char → Bool) : ∀ cs : List Char, Stops p (cs.dropWhile p)
  | [] => stops_nil p
  | c :: cs => by
    rw [List.dropWhile_cons]
    split
    · exact stops_dropWhile p cs
    · rename_i hc
      exact stops_cons.2 (by simpa using hc)

theorem Blanks.all {cs : List Char} (h : Blanks cs) : cs.all isBlank = true := List.all_eq_true.2 h

/-! ### Classes that are apart -/

/-- Whether no range of the first has a code point in common with one of the
second. -/
def Ranges.apart (rs ss : Ranges) : Bool := rs.all fun r => ss.all fun s => r.2 < s.1 || s.2 < r.1

theorem Ranges.holds_of_apart {rs ss : Ranges} (hr : rs.increasing) (hs : ss.increasing)
    (h : rs.apart ss = true) {code : Nat} (hc : rs.holds code = true) : ss.holds code = false := by
  rw [holds_eq_any code hr, List.any_eq_true] at hc
  obtain ⟨r, hr, hrc⟩ := hc
  rw [holds_eq_any code hs, List.any_eq_false]
  intro s hs hsc
  have hrs := List.all_eq_true.1 (List.all_eq_true.1 h r hr) s hs
  simp only [Bool.and_eq_true, Bool.or_eq_true, decide_eq_true_eq] at hrc hsc hrs
  omega

theorem blankRanges_increasing : blankRanges.increasing = true := by decide +kernel

theorem alphanumericRanges_increasing : alphanumericRanges.increasing = true := by decide +kernel

theorem blankRanges_apart : blankRanges.apart alphanumericRanges = true := by decide +kernel

theorem not_isAlphanum_of_holds : ∀ n < 128, Ranges.holds n blankRanges = true →
    (Char.ofNat n).isAlphanum = false := by decide

theorem isAlphanumeric_of_isBlank {c : Char} (h : isBlank c = true) : isAlphanumeric c = false := by
  unfold isAlphanumeric
  split
  · rename_i hc
    have := not_isAlphanum_of_holds c.toNat hc h
    rwa [Char.ofNat_toNat] at this
  · exact Ranges.holds_of_apart blankRanges_increasing alphanumericRanges_increasing
      blankRanges_apart h

theorem isNameChar_of_isBlank {c : Char} (h : isBlank c = true) : isNameChar c = false := by
  have hc : c ≠ '_' ∧ c ≠ '-' := by
    constructor <;> (rintro rfl; revert h; decide)
  simp [isNameChar, isAlphanumeric_of_isBlank h, hc]

theorem isBlank_of_isNameChar {c : Char} (h : isNameChar c = true) : isBlank c = false := by
  cases hb : isBlank c with
  | false => rfl
  | true => rw [isNameChar_of_isBlank hb] at h; exact absurd h (by simp)

theorem ne_of_isNameChar {c d : Char} (h : isNameChar c = true) (hd : isNameChar d = false) :
    c ≠ d := by
  rintro rfl
  rw [h] at hd
  exact absurd hd (by simp)

theorem ne_of_isBlank {c d : Char} (h : isBlank c = true) (hd : isBlank d = false) : c ≠ d := by
  rintro rfl
  rw [h] at hd
  exact absurd hd (by simp)

theorem isNameChar_of_isDigit {c : Char} (h : c.isDigit = true) : isNameChar c = true := by
  have hlt : c.toNat < 0x80 := by
    simp only [Char.isDigit, ge_iff_le, Bool.and_eq_true, decide_eq_true_eq] at h
    have := UInt32.le_iff_toNat_le.1 h.2
    change c.toNat ≤ 57 at this
    omega
  simp [isNameChar, isAlphanumeric, if_pos hlt, Char.isAlphanum, h]

theorem isBlank_of_isDigit {c : Char} (h : c.isDigit = true) : isBlank c = false :=
  isBlank_of_isNameChar (isNameChar_of_isDigit h)

theorem ne_of_isDigit {c d : Char} (h : c.isDigit = true) (hd : d.isDigit = false) : c ≠ d := by
  rintro rfl
  rw [h] at hd
  exact absurd hd (by simp)

theorem isNameChar_of_startsName {c : Char} (h : startsName c = true) :
    isNameChar c = true ∧ c.isDigit = false := by
  simp only [startsName, Bool.or_eq_true, Bool.and_eq_true, decide_eq_true_eq,
    Bool.not_eq_true'] at h
  rcases h with rfl | ⟨ha, hd⟩
  · decide
  · exact ⟨by simp [isNameChar, ha], hd⟩

theorem plain_of_isNameChar {c : Char} (h : isNameChar c = true) :
    Quoted.isMark c = false ∧ c ≠ '(' ∧ c ≠ ')' ∧ c ≠ ',' := by
  have hm : c ≠ '"' ∧ c ≠ '\'' := ⟨ne_of_isNameChar h (by decide), ne_of_isNameChar h (by decide)⟩
  exact ⟨by simp [Quoted.isMark, hm], ne_of_isNameChar h (by decide),
    ne_of_isNameChar h (by decide), ne_of_isNameChar h (by decide)⟩

theorem plain_of_isBlank {c : Char} (h : isBlank c = true) :
    Quoted.isMark c = false ∧ c ≠ '(' ∧ c ≠ ')' ∧ c ≠ ',' := by
  have hm : c ≠ '"' ∧ c ≠ '\'' := ⟨ne_of_isBlank h (by decide), ne_of_isBlank h (by decide)⟩
  exact ⟨by simp [Quoted.isMark, hm], ne_of_isBlank h (by decide), ne_of_isBlank h (by decide),
    ne_of_isBlank h (by decide)⟩

end TagScope
