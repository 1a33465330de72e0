/-
# One pass over an argument list

An argument list can be cut without knowing what an argument is. One pass from
left to right keeps track of the quoted text that is open and of the number of
open parentheses, and cuts at every comma where nothing is open. A piece that is
not blank is then an argument or not, by its first and its last character
(`IsArgument`), whatever stands around it.

This says what an argument list is without the scanners that read one. Here are
the pass and the laws it obeys: the pieces with their commas are the text again,
each argument stands in the text where it is said to, and a stretch of the text
without a cut can be passed over as a whole (`Pass.Skips`).

Key definitions: `Pass`, `Pass.closes`, `Pass.pieces`, `located`, `IsArgument`.
Key theorems: `Pass.intercalate_pieces`, `slice_of_mem_located`, `Pass.Skips.trans`,
`located_pieces_append`.
-/
import TagScope.Proofs.Words

namespace TagScope

/-! ### The pass -/

/-- What is open at a place in a text: a quoted text, with its mark and whether a
backslash stands right before the place, and so many parentheses. -/
structure Pass where
  quote : Option (Char × Bool) := none
  depth : Nat := 0
  deriving DecidableEq, Repr

namespace Pass

/-- Whether nothing is open. -/
def isClear (p : Pass) : Bool := p.quote = none && p.depth = 0

/-- What is open behind the character `c`. -/
def next (p : Pass) (c : Char) : Pass :=
  match p.quote with
  | some (mark, true) => { p with quote := some (mark, false) }
  | some (mark, false) =>
    if c = mark then { p with quote := none }
    else if c = '\\' then { p with quote := some (mark, true) }
    else p
  | none =>
    if Quoted.isMark c then { p with quote := some (c, false) }
    else if c = '(' then { p with depth := p.depth + 1 }
    else if c = ')' then { p with depth := p.depth - 1 }
    else p

/-- Whether no parenthesis is closed that is not open, and nothing is open at the
end. -/
def closes (p : Pass) : List Char → Bool
  | [] => p.isClear
  | c :: cs => !(p.isClear && c = ')') && closes (p.next c) cs

/-- The pieces of a text between the commas where nothing is open. -/
def pieces (p : Pass) : List Char → List (List Char)
  | [] => [[]]
  | c :: cs =>
    if p.isClear && c = ',' then [] :: pieces p cs
    else (pieces (p.next c) cs).modifyHead (c :: ·)

/-- Whether the last character closes what is open, and no other before it. -/
def closesLast (p : Pass) : List Char → Bool
  | [] => p.isClear
  | c :: cs => !p.isClear && closesLast (p.next c) cs

end Pass

/-! ### Arguments -/

/-- The text without white space at its ends. -/
def trim (cs : List Char) : List Char := Written.trimEnd (cs.dropWhile isBlank)

/-- The pieces that are not blank, trimmed, each with the place where it begins
then. The first piece begins at `pos`, and commas stand between them. -/
def located (pos : Nat) : List (List Char) → List (Nat × List Char)
  | [] => []
  | piece :: rest =>
    let behind := located (pos + width piece + ','.utf8Size) rest
    if piece.all isBlank then behind
    else (pos + width (piece.takeWhile isBlank), trim piece) :: behind

/-- Whether a text starts like a number: perhaps a sign, perhaps a point, and a
digit. -/
def StartsNumber (cs : List Char) : Prop :=
  ∃ sign point d more, (∀ c ∈ sign, c = '-' ∨ c = '+') ∧ (point = [] ∨ point = ['.']) ∧
    Char.isDigit d = true ∧ cs = Option.toList sign ++ point ++ d :: more

/-- Whether a text starts like a list: with `array` and a parenthesis. -/
def StartsList (cs : List Char) : Prop :=
  ∃ gap more, Blanks gap ∧ cs = Written.listWord ++ gap ++ '(' :: more

/-- What an argument may be, to look at. -/
inductive IsArgument : List Char → Prop where
  /-- One quoted text. -/
  | quoted {mark : Char} {body text : List Char} :
    Quoted.isMark mark = true → Quoted.Body mark body text → IsArgument (mark :: body ++ [mark])
  /-- One number. -/
  | number {n : Numeral} : n.Proper → IsArgument n.text
  /-- A list whose parenthesis the last character closes. -/
  | list {gap rest : List Char} :
    Blanks gap → Pass.closesLast { depth := 1 } rest = true →
    IsArgument (Written.listWord ++ gap ++ '(' :: rest)
  /-- Anything that starts like a name or a path and like nothing else. -/
  | reference {c : Char} {cs : List Char} :
    Written.startsReference c = true → ¬ StartsNumber (c :: cs) → ¬ StartsList (c :: cs) →
    IsArgument (c :: cs)

/-! ### Nothing is lost -/

namespace Pass

@[simp] theorem isClear_start : isClear {} = true := rfl

theorem eq_of_isClear {p : Pass} (h : p.isClear = true) : p = {} := by
  obtain ⟨quote, depth⟩ := p
  simp only [isClear, Bool.and_eq_true, decide_eq_true_eq] at h
  obtain ⟨rfl, rfl⟩ := h
  rfl

theorem pieces_ne_nil : ∀ (cs : List Char) (p : Pass), p.pieces cs ≠ []
  | [], _ => by simp [pieces]
  | c :: cs, p => by
    rw [pieces]
    split
    · simp
    · simp [pieces_ne_nil cs]

theorem intercalate_modifyHead {sep x : List Char} : ∀ {xs : List (List Char)}, xs ≠ [] →
    sep.intercalate (xs.modifyHead (x ++ ·)) = x ++ sep.intercalate xs
  | [y], _ => by simp
  | y :: z :: xs, _ => by simp [List.intercalate_cons_cons]

/-- **The pieces with commas between them are the text.** -/
theorem intercalate_pieces : ∀ (cs : List Char) (p : Pass), [','].intercalate (p.pieces cs) = cs
  | [], _ => rfl
  | c :: cs, p => by
    rw [pieces]
    split
    · rename_i h
      simp only [Bool.and_eq_true, decide_eq_true_eq] at h
      rw [List.intercalate_cons_of_ne_nil (pieces_ne_nil cs p), intercalate_pieces cs p, h.2]
      rfl
    · have hhead := @intercalate_modifyHead [','] [c] _ (pieces_ne_nil cs (p.next c))
      rw [intercalate_pieces cs] at hhead
      exact hhead

example : (pieces {} "f(1,2), 'a,b',".toList).map String.ofList = ["f(1,2)", " 'a,b'", ""] := by
  decide +kernel

end Pass

theorem trim_slice (piece : List Char) : ∃ before after,
    piece = before ++ trim piece ++ after ∧ width before = width (piece.takeWhile isBlank) := by
  refine ⟨piece.takeWhile isBlank, Written.blankEnd (piece.dropWhile isBlank), ?_, rfl⟩
  rw [trim, List.append_assoc, Written.trimEnd_append_blankEnd, List.takeWhile_append_dropWhile]

/-- **An argument stands in the text** at the place where it is said to begin. -/
theorem slice_of_mem_located : ∀ {pieces : List (List Char)} {pos : Nat} {a : Nat × List Char},
    a ∈ located pos pieces → ∃ before after,
      [','].intercalate pieces = before ++ a.2 ++ after ∧ a.1 = pos + width before
  | [], _, _, h => by simp [located] at h
  | piece :: rest, pos, a, h => by
    -- behind the piece there may be more, which begins with the comma
    obtain ⟨tail, htail⟩ : ∃ tail, [','].intercalate (piece :: rest) = piece ++ tail := by
      cases rest with
      | nil => exact ⟨[], by simp⟩
      | cons x xs => exact ⟨_, by rw [List.intercalate_cons_cons, List.append_assoc]⟩
    have hrest : a ∈ located (pos + width piece + ','.utf8Size) rest → ∃ before after,
        [','].intercalate (piece :: rest) = before ++ a.2 ++ after ∧ a.1 = pos + width before := by
      intro hmem
      obtain ⟨before, after, heq, hpos⟩ := slice_of_mem_located hmem
      have hne : rest ≠ [] := by
        rintro rfl
        simp [located] at hmem
      refine ⟨piece ++ ',' :: before, after, ?_, ?_⟩
      · rw [List.intercalate_cons_of_ne_nil hne, heq]
        simp
      · rw [hpos, width_append, width_cons]
        omega
    rw [located] at h
    split at h
    · exact hrest h
    · rcases List.mem_cons.1 h with rfl | h
      · obtain ⟨before, after, heq, hwidth⟩ := trim_slice piece
        refine ⟨before, after ++ tail, ?_, by rw [hwidth]⟩
        calc [','].intercalate (piece :: rest) = piece ++ tail := htail
          _ = before ++ trim piece ++ after ++ tail := congrArg (· ++ tail) heq
          _ = before ++ trim piece ++ (after ++ tail) := List.append_assoc ..
      · exact hrest h

/-! ### Stretches without a cut -/

namespace Pass

/-- From `p` the pass comes to `q` over this text, without a cut. -/
def Skips (p q : Pass) (cs : List Char) : Prop :=
  ∀ rest, p.closes (cs ++ rest) = q.closes rest ∧
    p.pieces (cs ++ rest) = (q.pieces rest).modifyHead (cs ++ ·)

namespace Skips

variable {p q r : Pass}

theorem refl (p : Pass) : Skips p p [] := by
  intro rest
  refine ⟨rfl, ?_⟩
  show _ = (p.pieces rest).modifyHead id
  rw [List.modifyHead_id]
  rfl

theorem trans {cs ds : List Char} (h : Skips p q cs) (h' : Skips q r ds) :
    Skips p r (cs ++ ds) := by
  intro rest
  obtain ⟨hcloses, hpieces⟩ := h (ds ++ rest)
  obtain ⟨hcloses', hpieces'⟩ := h' rest
  rw [List.append_assoc, hcloses, hpieces, hcloses', hpieces', List.modifyHead_modifyHead]
  refine ⟨rfl, congrArg (List.modifyHead · _) ?_⟩
  funext xs
  simp

theorem char {c : Char} (h : p.isClear = true → c ≠ ',' ∧ c ≠ ')') : Skips p (p.next c) [c] := by
  intro rest
  have hcomma : ¬ (p.isClear && c = ',') = true := by
    simp only [Bool.and_eq_true, decide_eq_true_eq]
    exact fun hc => (h hc.1).1 hc.2
  have hparen : (p.isClear && c = ')') = false := by
    simp only [Bool.and_eq_false_iff, decide_eq_false_iff_not]
    cases hp : p.isClear with
    | false => exact Or.inl rfl
    | true => exact Or.inr (h hp).2
  rw [List.singleton_append, closes, pieces, if_neg hcomma, hparen]
  exact ⟨rfl, rfl⟩

theorem cons {c : Char} {cs : List Char} (h : p.isClear = true → c ≠ ',' ∧ c ≠ ')')
    (h' : Skips (p.next c) q cs) : Skips p q (c :: cs) := (char h).trans h'

theorem of_plain (hq : p.quote = none) : ∀ {cs : List Char},
    (∀ c ∈ cs, Quoted.isMark c = false ∧ c ≠ '(' ∧ c ≠ ')' ∧ c ≠ ',') → Skips p p cs
  | [], _ => refl p
  | c :: cs, h => by
    obtain ⟨hm, ho, hc, hcomma⟩ := h c List.mem_cons_self
    have hnext : p.next c = p := by simp [next, hq, hm, ho, hc]
    refine cons (fun _ => ⟨hcomma, hc⟩) ?_
    rw [hnext]
    exact of_plain hq fun d hd => h d (List.mem_cons_of_mem _ hd)

theorem of_closesLast : ∀ {cs : List Char} {p : Pass}, p.closesLast cs = true → Skips p {} cs
  | [], p, h => by
    rw [eq_of_isClear h]
    exact refl _
  | c :: cs, p, h => by
    simp only [closesLast, Bool.and_eq_true, Bool.not_eq_true'] at h
    exact cons (fun hc => absurd hc (by simp [h.1])) (of_closesLast h.2)

theorem of_body {mark : Char} {body text : List Char} (hm : Quoted.isMark mark = true)
    (h : Quoted.Body mark body text) {depth : Nat} :
    Skips ⟨some (mark, false), depth⟩ ⟨some (mark, false), depth⟩ body := by
  have hs : mark ≠ '\\' := by rintro rfl; simp [Quoted.isMark] at hm
  have hopen : ∀ {b}, ¬ isClear ⟨some (mark, b), depth⟩ = true := by simp [isClear]
  induction h with
  | nil => exact refl _
  | @plain c cs _ hc hb _ ih =>
    refine cons (fun h => absurd h hopen) ?_
    have hnext : next ⟨some (mark, false), depth⟩ c = ⟨some (mark, false), depth⟩ := by
      simp [next, hc, hb]
    rw [hnext]
    exact ih
  | @escaped c cs _ _ ih =>
    refine cons (fun h => absurd h hopen) ?_
    have hnext : next ⟨some (mark, false), depth⟩ '\\' = ⟨some (mark, true), depth⟩ := by
      simp [next, hs.symm]
    rw [hnext]
    exact cons (fun h => absurd h hopen) ih

theorem quoted {mark : Char} {body text : List Char} (hm : Quoted.isMark mark = true)
    (h : Quoted.Body mark body text) {depth : Nat} :
    Skips ⟨none, depth⟩ ⟨none, depth⟩ (mark :: body ++ [mark]) := by
  have hplain : mark ≠ ',' ∧ mark ≠ ')' := by
    constructor <;> (rintro rfl; simp [Quoted.isMark] at hm)
  refine cons (fun _ => hplain) ?_
  have hnext : next ⟨none, depth⟩ mark = ⟨some (mark, false), depth⟩ := by simp [next, hm]
  have hlast : next ⟨some (mark, false), depth⟩ mark = ⟨none, depth⟩ := by simp [next]
  rw [hnext]
  have hclosing := @char ⟨some (mark, false), depth⟩ mark (fun _ => hplain)
  rw [hlast] at hclosing
  exact (of_body hm h).trans hclosing

end Skips

end Pass

/-! ### Arguments behind separators -/

section

variable {pos : Nat}

theorem located_modifyHead {c : Char} (hc : isBlank c = true) : ∀ {pieces : List (List Char)},
    pieces ≠ [] → located pos (pieces.modifyHead (c :: ·)) = located (pos + c.utf8Size) pieces
  | piece :: rest, _ => by
    have hstart : pos + width (c :: piece) = pos + c.utf8Size + width piece := by
      rw [width_cons, Nat.add_assoc]
    have htrim : trim (c :: piece) = trim piece := by
      rw [trim, List.dropWhile_cons, if_pos hc, trim]
    have hgap : pos + width ((c :: piece).takeWhile isBlank) =
        pos + c.utf8Size + width (piece.takeWhile isBlank) := by
      rw [List.takeWhile_cons, if_pos hc, width_cons, Nat.add_assoc]
    rw [List.modifyHead_cons, located, located, hstart, htrim, hgap, List.all_cons, hc,
      Bool.true_and]

theorem located_comma (pieces : List (List Char)) :
    located pos ([] :: pieces) = located (pos + ','.utf8Size) pieces := by
  rw [located]
  rfl

theorem located_pieces_cons {c : Char} (hc : Token.isSeparator c = true) (cs : List Char) :
    Pass.closes {} (c :: cs) = Pass.closes {} cs ∧
      located pos (Pass.pieces {} (c :: cs)) = located (pos + c.utf8Size) (Pass.pieces {} cs) := by
  simp only [Token.isSeparator, Bool.or_eq_true, decide_eq_true_eq] at hc
  rcases hc with hblank | rfl
  · have hskips := @Pass.Skips.of_plain {} rfl [c] (by simpa using plain_of_isBlank hblank)
    obtain ⟨hcloses, hpieces⟩ := hskips cs
    refine ⟨hcloses, ?_⟩
    rw [← List.singleton_append, hpieces]
    exact located_modifyHead hblank (Pass.pieces_ne_nil cs {})
  · exact ⟨rfl, located_comma _⟩

/-- **Separators move the arguments behind them** and change nothing else. -/
theorem located_pieces_append : ∀ {seps : List Char} (cs : List Char) {pos : Nat},
    Separators seps → Pass.closes {} (seps ++ cs) = Pass.closes {} cs ∧
      located pos (Pass.pieces {} (seps ++ cs)) = located (pos + width seps) (Pass.pieces {} cs)
  | [], _, _, _ => ⟨rfl, rfl⟩
  | c :: seps, cs, pos, h => by
    obtain ⟨hcloses, hlocated⟩ :=
      @located_pieces_cons pos c (h c List.mem_cons_self) (seps ++ cs)
    obtain ⟨hcloses', hlocated'⟩ := @located_pieces_append seps cs (pos + c.utf8Size)
      fun d hd => h d (List.mem_cons_of_mem _ hd)
    rw [List.cons_append, hcloses, hlocated, hcloses', hlocated', width_cons, Nat.add_assoc]
    exact ⟨rfl, rfl⟩

end

end TagScope
