/-
# Argument lists

An argument list is cut into its arguments at the commas between them. White
space around an argument is dropped, and so are commas with nothing between
them. `split` gives the arguments as they are written; they are read later.

Key definitions: `Token`, `Token.scan`, `splitArguments`.
-/
import TagScope.Argument.Written
import TagScope.Scan

namespace TagScope

/-- An argument and the place where it begins. -/
structure Token where
  start : Nat
  written : Written
  deriving DecidableEq, Repr

namespace Token

/-- The characters of an argument. -/
def text (t : Token) : List Char := t.written.text

/-- The place of an argument. -/
def span (t : Token) : Span := .covering t.start t.text

/-- What stands between arguments. -/
def isSeparator (c : Char) : Bool := isBlank c || c = ','

theorem length_dropWhile_le {α : Type} (p : α → Bool) :
    ∀ xs : List α, (xs.dropWhile p).length ≤ xs.length
  | [] => Nat.le_refl _
  | x :: xs => by
    rw [List.dropWhile_cons]
    split
    · exact Nat.le_succ_of_le (length_dropWhile_le p xs)
    · exact Nat.le_refl _

/-- A text is shorter behind an argument and the comma that follows it. -/
theorem length_of_scan {pos : Nat} {cs : List Char} {c : Char} {rest after more : List Char}
    {w : Written} {d : Char} (hcs : cs.dropWhile isSeparator = c :: rest)
    (hw : Written.scan pos c rest = .ok (w, after)) (hd : after.dropWhile isBlank = d :: more) :
    more.length < cs.length := by
  have h₁ := length_dropWhile_le isSeparator cs
  have h₂ := length_dropWhile_le isBlank after
  have h₃ := congrArg List.length (Written.eq_text_of_scan hw)
  rw [hcs] at h₁
  rw [hd] at h₂
  simp only [List.length_append, List.length_cons] at h₁ h₂ h₃
  omega

/-- The arguments of a list that begins at `pos`, up to the first fault. -/
def scan (pos : Nat) (cs : List Char) : Scan Token :=
  let start := pos + width (cs.takeWhile isSeparator)
  match _hcs : cs.dropWhile isSeparator with
  | [] => .done
  | c :: rest =>
    match _hw : Written.scan start c rest with
    | .error fault => .failed fault
    | .ok (w, after) =>
      let stop := start + width w.text + width (after.takeWhile isBlank)
      match _hd : after.dropWhile isBlank with
      | [] => .cons ⟨start, w⟩ .done
      | d :: more =>
        if d = ',' then .cons ⟨start, w⟩ (scan (stop + 1) more)
        else .failed ⟨.expectedSeparator, .char stop d⟩
termination_by cs.length
decreasing_by exact length_of_scan _hcs _hw _hd

section

variable {pos : Nat} {cs rest after more : List Char} {c : Char} {w : Written}

theorem scan_nil (hcs : cs.dropWhile isSeparator = []) : scan pos cs = .done := by
  rw [scan]
  grind

theorem scan_failed {fault : Fault} (hcs : cs.dropWhile isSeparator = c :: rest)
    (hw : Written.scan (pos + width (cs.takeWhile isSeparator)) c rest = .error fault) :
    scan pos cs = .failed fault := by
  rw [scan]
  grind

theorem scan_last (hcs : cs.dropWhile isSeparator = c :: rest)
    (hw : Written.scan (pos + width (cs.takeWhile isSeparator)) c rest = .ok (w, after))
    (hd : after.dropWhile isBlank = []) :
    scan pos cs = .cons ⟨pos + width (cs.takeWhile isSeparator), w⟩ .done := by
  rw [scan]
  grind

theorem scan_comma (hcs : cs.dropWhile isSeparator = c :: rest)
    (hw : Written.scan (pos + width (cs.takeWhile isSeparator)) c rest = .ok (w, after))
    (hd : after.dropWhile isBlank = ',' :: more) :
    scan pos cs = .cons ⟨pos + width (cs.takeWhile isSeparator), w⟩
      (scan (pos + width (cs.takeWhile isSeparator) + width w.text +
        width (after.takeWhile isBlank) + 1) more) := by
  rw [scan]
  grind

theorem scan_unseparated {d : Char} (hcs : cs.dropWhile isSeparator = c :: rest)
    (hw : Written.scan (pos + width (cs.takeWhile isSeparator)) c rest = .ok (w, after))
    (hd : after.dropWhile isBlank = d :: more) (hcomma : d ≠ ',') :
    scan pos cs = .failed ⟨.expectedSeparator, .char (pos + width (cs.takeWhile isSeparator) +
      width w.text + width (after.takeWhile isBlank)) d⟩ := by
  rw [scan]
  grind

end

end Token

/-- The arguments of a list and the first fault, if there is one. -/
def scanArguments (input : String) : Scan Token := Token.scan 0 input.toList

/-- The arguments of a list, as they are written. -/
def splitArguments (input : String) : Except SyntaxError (List String) :=
  match (scanArguments input).toExcept with
  | .ok tokens => .ok (tokens.map fun t => String.ofList t.text)
  | .error fault => .error (fault.within input)

end TagScope
