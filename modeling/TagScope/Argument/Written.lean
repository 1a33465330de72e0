/-
# One written argument

An argument is a list `array( ... )`, a quoted text, a number, or a reference
to a name or path, and its first characters tell which. `Written.scan` reads
one argument and keeps every character of it: the argument's `text` and what
is left make up the text that was read.

Key definitions: `Written`, `Written.text`, `Written.kind`, `Written.scan`.
Key theorems: `Written.eq_text_of_scan`.
-/
import TagScope.Text.Alphanumeric
import TagScope.Text.Blank
import TagScope.Text.Nesting
import TagScope.Numeral

namespace TagScope

/-- The kinds of arguments. -/
inductive ArgumentKind where
  | list
  | reference
  | text
  | decimal
  | integer
  deriving DecidableEq, Repr

/-- An argument as it is written. -/
inductive Written where
  /-- `array( ... )`, with white space `gap` before the parenthesis. -/
  | list (gap inside : List Char)
  /-- A name or a path, which may have arguments of its own. -/
  | reference (name : List Char)
  /-- A text between two marks. -/
  | quoted (mark : Char) (body : List Char)
  | number (n : Numeral)
  deriving DecidableEq, Repr

namespace Written

/-- The word that begins a list. -/
def listWord : List Char := ['a', 'r', 'r', 'a', 'y']

/-- The characters of an argument. -/
def text : Written → List Char
  | .list gap inside => listWord ++ gap ++ '(' :: inside ++ [')']
  | .reference name => name
  | .quoted mark body => mark :: body ++ [mark]
  | .number n => n.text

/-- The kind of an argument. -/
def kind : Written → ArgumentKind
  | .list _ _ => .list
  | .reference _ => .reference
  | .quoted _ _ => .text
  | .number n => if n.isDecimal then .decimal else .integer

/-! ### References -/

/-- Whether a reference can begin with this character. -/
def startsReference (c : Char) : Bool := isAlphanumeric c || c = '_' || c = '.'

/-- The text without white space at its end. -/
def trimEnd (cs : List Char) : List Char := (cs.reverse.dropWhile isBlank).reverse

/-- The white space at the end of a text. -/
def blankEnd (cs : List Char) : List Char := (cs.reverse.takeWhile isBlank).reverse

theorem trimEnd_append_blankEnd (cs : List Char) : trimEnd cs ++ blankEnd cs = cs := by
  rw [trimEnd, blankEnd, ← List.reverse_append, List.takeWhile_append_dropWhile,
    List.reverse_reverse]

/-- The reference that begins the text. It goes on to the next comma outside
of groups and quoted texts; white space before that is not part of it. -/
def scanReference (pos : Nat) (cs : List Char) : Except Fault (Written × List Char) :=
  (Nesting.reach pos cs).map fun (before, after) =>
    (.reference (trimEnd before), blankEnd before ++ after)

/-! ### Lists -/

/-- The white space behind the word `array`, and what stands after the
parenthesis that follows. -/
def listOpening? (cs : List Char) : Option (List Char × List Char) :=
  match listWord.isPrefixOf cs, (cs.drop listWord.length).dropWhile isBlank with
  | true, '(' :: inner => some ((cs.drop listWord.length).takeWhile isBlank, inner)
  | _, _ => none

theorem eq_of_listOpening? {cs gap inner : List Char} (h : listOpening? cs = some (gap, inner)) :
    cs = listWord ++ gap ++ '(' :: inner := by
  unfold listOpening? at h
  split at h
  · rename_i hp hd
    simp only [Option.some.injEq, Prod.mk.injEq] at h
    obtain ⟨rest, rfl⟩ := List.isPrefixOf_iff_prefix.1 hp
    rw [List.drop_left] at h hd
    rw [List.append_assoc, ← h.1, ← h.2, ← hd, List.takeWhile_append_dropWhile]
  · simp at h

/-- The offset of the parenthesis of a list that begins at `pos`. -/
def listOpened (pos : Nat) (gap : List Char) : Nat := pos + width listWord + width gap

/-- The list whose parenthesis has been read. -/
def scanList (pos : Nat) (gap inner : List Char) : Except Fault (Written × List Char) :=
  (Nesting.close (listOpened pos gap) inner).map fun (inside, after) => (.list gap inside, after)

/-! ### All arguments -/

/-- The argument that begins with `c` at `pos`, and what follows it. -/
def scan (pos : Nat) (c : Char) (rest : List Char) : Except Fault (Written × List Char) :=
  if Quoted.isMark c then
    match Quoted.close c rest with
    | none => .error ⟨.unterminatedString, .covering pos (c :: rest)⟩
    | some (body, after) => .ok (.quoted c body, after)
  else match Numeral.scan? (c :: rest) with
    | some (n, after) => .ok (.number n, after)
    | none =>
      match listOpening? (c :: rest) with
      | some (gap, inner) => scanList pos gap inner
      | none =>
        if startsReference c then scanReference pos (c :: rest)
        else if c = ')' then .error ⟨.unmatchedParen, .char pos c⟩
        else .error ⟨.unexpectedChar c, .char pos c⟩

/-- Nothing is lost: the argument and what follows it are the text. -/
theorem eq_text_of_scan {pos : Nat} {c : Char} {rest after : List Char} {w : Written}
    (h : scan pos c rest = .ok (w, after)) : c :: rest = w.text ++ after := by
  unfold scan at h
  split at h
  · split at h
    · simp at h
    · rename_i body after' hq
      simp only [Except.ok.injEq, Prod.mk.injEq] at h
      rw [← h.1, ← h.2, text, Quoted.close_eq_some hq]
      simp
  · split at h
    · rename_i n after' hn
      simp only [Except.ok.injEq, Prod.mk.injEq] at h
      rw [← h.1, ← h.2, text, Numeral.eq_text_of_scan? hn]
    · split at h
      · rename_i gap inner hl
        unfold scanList at h
        cases hc : Nesting.close (listOpened pos gap) inner with
        | error => simp [hc, Except.map] at h
        | ok r =>
          simp only [hc, Except.map, Except.ok.injEq, Prod.mk.injEq] at h
          rw [← h.1, ← h.2, text, eq_of_listOpening? hl, Nesting.eq_of_close hc]
          simp
      · split at h
        · unfold scanReference at h
          cases hr : Nesting.reach pos (c :: rest) with
          | error => simp [hr, Except.map] at h
          | ok r =>
            simp only [hr, Except.map, Except.ok.injEq, Prod.mk.injEq] at h
            rw [← h.1, ← h.2, text, ← List.append_assoc, trimEnd_append_blankEnd]
            exact Nesting.append_of_reach hr
        · split at h <;> simp at h

end Written

end TagScope
