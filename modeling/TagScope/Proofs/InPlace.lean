/-
# Reading a range of a tag where it stands

An argument need not be cut out of a tag to be read. `Path.parseAt` reads a
range of a tag inside the whole tag: it keeps the places of the tag, and when it
looks for the end of a group or for the parenthesis of a list, it looks in the
whole tag and not only in the range. It reads an argument list as soon as it has
come to it, before it goes on in the path.

Still it reads the same. What a list holds is closed, so that a group which
opens in an argument ends there, and nothing behind the argument is ever come to
(`Segment.readAt_of_scanOne`). So what is read in a range is what is read in its
characters alone, from the place where they begin (`Path.readAt_eq`), and by
`Path.read_add` that does not depend on the place. In a tag whose parentheses
nest no deeper than lists may, an argument is read as it is read alone, and
every error is the same, moved to where the argument stands
(`Path.parseAt_reference`).

Key definitions: `Span.slice`, `Segment.readAt`, `Path.stepsAt`, `Path.readAt`,
`Arg.readListAt`, `Path.parseAt`.
Key theorems: `Path.readAt_eq`, `Arg.readListAt_eq`, `Path.parseAt_whole`,
`Path.parseAt_reference`.
-/
import Mathlib.Data.List.Infix
import TagScope.Proofs.Joining
import TagScope.Proofs.Reached

namespace TagScope

/-! ### Ranges of a text -/

/-- The text from the byte `pos` on. -/
def dropBytes (pos : Nat) : List Char → List Char
  | [] => []
  | c :: cs => if pos = 0 then c :: cs else dropBytes (pos - c.utf8Size) cs

/-- The characters in the first `size` bytes of a text. -/
def takeBytes (size : Nat) : List Char → List Char
  | [] => []
  | c :: cs => if size = 0 then [] else c :: takeBytes (size - c.utf8Size) cs

/-- The characters that a span of a text covers. -/
def Span.slice (src : List Char) (s : Span) : List Char :=
  takeBytes (s.stop - s.start) (dropBytes s.start src)

@[simp] theorem dropBytes_zero (cs : List Char) : dropBytes 0 cs = cs := by
  cases cs <;> rfl

@[simp] theorem takeBytes_zero (cs : List Char) : takeBytes 0 cs = [] := by
  cases cs <;> rfl

theorem dropBytes_width : ∀ cs ds : List Char, dropBytes (width cs) (cs ++ ds) = ds
  | [], ds => dropBytes_zero ds
  | c :: cs, ds => by
    have hpos := c.utf8Size_pos
    have hrest : c.utf8Size + width cs - c.utf8Size = width cs := by omega
    rw [List.cons_append, width_cons, dropBytes, if_neg (by omega), hrest, dropBytes_width cs ds]

theorem takeBytes_width : ∀ cs ds : List Char, takeBytes (width cs) (cs ++ ds) = cs
  | [], ds => takeBytes_zero ds
  | c :: cs, ds => by
    have hpos := c.utf8Size_pos
    have hrest : c.utf8Size + width cs - c.utf8Size = width cs := by omega
    rw [List.cons_append, width_cons, takeBytes, if_neg (by omega), hrest, takeBytes_width cs ds]

theorem Span.slice_append (before cs after : List Char) :
    Span.slice (before ++ cs ++ after) ⟨width before, width before + width cs⟩ = cs := by
  rw [Span.slice, Nat.add_sub_cancel_left, List.append_assoc, dropBytes_width, takeBytes_width]

theorem Span.lt_of_slice {src rest : List Char} {s : Span} {c : Char}
    (h : s.slice src = c :: rest) : s.start < s.stop := by
  by_contra hle
  rw [Span.slice, Nat.sub_eq_zero_of_le (by omega), takeBytes_zero] at h
  simp at h

theorem width_pos {cs : List Char} (h : cs ≠ []) : 0 < width cs := by
  obtain ⟨c, more, rfl⟩ := List.exists_cons_of_ne_nil h
  have hpos := c.utf8Size_pos
  rw [width_cons]
  omega

theorem width_group (inside : List Char) : width ('(' :: inside ++ [')']) = width inside + 2 := by
  have hopening : '('.utf8Size = 1 := rfl
  have hclosing : width [')'] = 1 := rfl
  rw [width_append, width_cons, hopening, hclosing]
  omega

/-! ### The reader -/

/-- Reads the segment that begins at `pos`, in a path that goes up to `stop`, and
says where it ends. `arguments` reads the argument list in a range. -/
def Segment.readAt (src : List Char) (arguments : Span → Except Fault (List Arg))
    (stop pos : Nat) : Except Fault (Segment × Nat) :=
  let rest := Span.slice src ⟨pos, stop⟩
  let name := rest.takeWhile isNameChar
  let opened := pos + width name
  if name.isEmpty then .error (RawSegment.misplaced pos rest)
  else
    match rest.dropWhile isNameChar with
    | '(' :: _ =>
      match Nesting.close opened (dropBytes (opened + 1) src) with
      | .error fault => .error fault
      | .ok (inside, _) =>
        let closed := opened + 1 + width inside
        if stop ≤ closed then .error ⟨.unclosedParen, .char opened '('⟩
        else (arguments ⟨opened + 1, closed⟩).map fun args =>
          (.call (String.ofList name) args, closed + 1)
    | _ => .ok (.bare (String.ofList name), opened)

section

variable {src : List Char} {arguments : Span → Except Fault (List Arg)} {stop pos : Nat}

theorem Segment.lt_of_readAt {s : Segment} {next : Nat}
    (h : readAt src arguments stop pos = .ok (s, next)) : pos < next := by
  unfold readAt at h
  dsimp only at h
  split at h
  · simp at h
  · rename_i hname
    have hwidth := width_pos fun h => hname (List.isEmpty_iff.2 h)
    split at h
    · split at h
      · simp at h
      · split at h
        · simp at h
        · obtain ⟨args, -, heq⟩ := map_eq_ok.1 h
          simp only [Prod.mk.injEq] at heq
          omega
    · simp only [Except.ok.injEq, Prod.mk.injEq] at h
      omega

end

/-- Reads the segments from `pos` up to `stop`. -/
def Path.stepsAt (src : List Char) (arguments : Span → Except Fault (List Arg))
    (stop pos : Nat) : Except Fault (List Segment) :=
  match _h : Segment.readAt src arguments stop pos with
  | .error fault => .error fault
  | .ok (segment, next) =>
    match _hrest : Span.slice src ⟨next, stop⟩ with
    | [] => .ok [segment]
    | c :: rest =>
      if c = '.' then (stepsAt src arguments stop (next + 1)).map (segment :: ·)
      else .error (RawSegment.misplaced next (c :: rest))
termination_by stop - pos
decreasing_by
  have hpos := Segment.lt_of_readAt _h
  have hnext : next < stop := Span.lt_of_slice _hrest
  omega

theorem Path.stepsAt_eq (src : List Char) (arguments : Span → Except Fault (List Arg))
    (stop pos : Nat) : stepsAt src arguments stop pos =
      match Segment.readAt src arguments stop pos with
      | .error fault => .error fault
      | .ok (segment, next) =>
        match Span.slice src ⟨next, stop⟩ with
        | [] => .ok [segment]
        | c :: rest =>
          if c = '.' then (stepsAt src arguments stop (next + 1)).map (segment :: ·)
          else .error (RawSegment.misplaced next (c :: rest)) := by
  rw [stepsAt]
  grind

/-- Reads the path that stands alone in a range. -/
def Path.readAt (src : List Char) (arguments : Span → Except Fault (List Arg)) (range : Span) :
    Except Fault Path :=
  let text := range.slice src
  let start := range.start + width (text.takeWhile isBlank)
  match trim text with
  | [] => .error ⟨.emptyPath, range⟩
  | c :: rest =>
    if c = '.' then
      if rest.isEmpty then .ok .current else .error ⟨.misplacedDot, .char start c⟩
    else (stepsAt src arguments (start + width (c :: rest)) start).map .segments

/-- Reads one argument. A list is looked for where the argument begins, and what
it holds goes up to the last character of the argument. -/
def Arg.readAt (src : List Char) (arguments : Span → Except Fault (List Arg)) (t : Token) :
    Except Fault Arg :=
  match t.written with
  | .list _ _ =>
    match Written.listOpening? (dropBytes t.start src) with
    | none => .error ⟨.unexpectedChar 'a', t.span⟩
    | some (gap, _) =>
      (arguments ⟨Written.listOpened t.start gap + 1, t.span.stop - 1⟩).map .list
  | .reference _ => (Path.readAt src arguments t.span).map .path
  | .quoted _ _ | .number _ =>
    read (fun opened inside => arguments ⟨opened + 1, opened + 1 + width inside⟩) t

/-- Reads the argument list in a range, behind its parenthesis. The list is cut
out to be split, and the places of its arguments are moved back into the tag. -/
def Arg.readListAt (src : List Char) : (levels : Nat) → Span → Except Fault (List Arg)
  | 0 => fun range => .error ⟨.tooDeep, .char (range.start - 1) '('⟩
  | levels + 1 => fun range =>
    ((Token.scan 0 (range.slice src)).moved (Token.moved range.start) range.start).traverse
      (readAt src (readListAt src levels))

/-- Reads a range of a tag where it stands. `levels` argument lists may be open
at a time. -/
def Path.parseAt (tag : String) (levels : Nat) (range : Span) : Except SyntaxError Path :=
  (readAt tag.toList (Arg.readListAt tag.toList levels) range).mapError (Fault.within tag)

/-! ### Segments -/

namespace RawSegment

/-- What a text begins with: no name, a name alone, or a name and a parenthesis. -/
theorem shape (cs : List Char) : Stops isNameChar cs ∨
    (∃ name rest, cs = name ++ rest ∧ IsName name ∧ Ends rest) ∨
    ∃ name inner, cs = name ++ '(' :: inner ∧ IsName name := by
  by_cases hname : cs.takeWhile isNameChar = []
  · refine Or.inl fun c hc => ?_
    cases cs with
    | nil => simp at hc
    | cons d rest =>
      obtain rfl : d = c := Option.some.inj hc
      by_contra hchar
      rw [List.takeWhile_cons, if_pos (by simpa using hchar)] at hname
      simp at hname
  · have hn : IsName (cs.takeWhile isNameChar) :=
      ⟨hname, fun c hc => List.mem_takeWhile_imp hc⟩
    have hstops := stops_dropWhile isNameChar cs
    have hsplit : cs = cs.takeWhile isNameChar ++ cs.dropWhile isNameChar :=
      List.takeWhile_append_dropWhile.symm
    cases hd : cs.dropWhile isNameChar with
    | nil =>
      rw [hd] at hsplit
      exact Or.inr (Or.inl ⟨_, [], hsplit, hn, by simp [Ends]⟩)
    | cons c inner =>
      rw [hd] at hsplit hstops
      by_cases hparen : c = '('
      · rw [hparen] at hsplit
        exact Or.inr (Or.inr ⟨_, inner, hsplit, hn⟩)
      · refine Or.inr (Or.inl ⟨_, c :: inner, hsplit, hn, fun d hd' => ?_⟩)
        obtain rfl : c = d := Option.some.inj hd'
        exact ⟨stops_cons.1 hstops, hparen⟩

theorem misplaced_append {gap : List Char} (hgap : Blanks gap) (pos : Nat) (cs : List Char) :
    misplaced pos (cs ++ gap) = misplaced pos cs := by
  have hall : gap.all isBlank = true := hgap.all
  cases cs with
  | nil =>
    cases gap with
    | nil => rfl
    | cons c rest =>
      unfold misplaced
      exact if_pos hall
  | cons c rest =>
    have hsame : (c :: rest ++ gap).all isBlank = (c :: rest).all isBlank := by
      rw [List.all_append, hall, Bool.and_true]
    rw [List.cons_append] at hsame ⊢
    rw [misplaced, misplaced, hsame]

theorem Ends.append_blanks {rest gap : List Char} (h : Ends rest) (hgap : Blanks gap) :
    Ends (rest ++ gap) := by
  cases rest with
  | nil => exact ends_of_blanks hgap
  | cons c more => exact h

end RawSegment

theorem eq_append_of_append_blanks {xs gap ys zs : List Char} {c : Char} (hgap : Blanks gap)
    (hc : isBlank c = false) (h : xs ++ gap = ys ++ c :: zs) :
    ∃ zs', xs = ys ++ c :: zs' ∧ zs = zs' ++ gap := by
  obtain ⟨more, hys, hgap'⟩ | ⟨more, hxs, hzs⟩ := List.append_eq_append_iff.1 h
  · -- the character would be in the gap
    have hmem : c ∈ gap := by
      rw [hgap']
      exact List.mem_append_right _ List.mem_cons_self
    rw [hgap c hmem] at hc
    exact absurd hc (by simp)
  · cases more with
    | nil =>
      rw [List.nil_append] at hzs
      have hmem : c ∈ gap := by
        rw [← hzs]
        exact List.mem_cons_self
      rw [hgap c hmem] at hc
      exact absurd hc (by simp)
    | cons d more =>
      rw [List.cons_append, List.cons.injEq] at hzs
      exact ⟨more, by rw [hxs, hzs.1], hzs.2⟩

/-- A group in a text in which everything is closed ends there, whatever stands
behind the text. -/
theorem Nesting.close_append_of_closes {inner after : List Char} (opened : Nat)
    (h : Pass.closes {} ('(' :: inner) = true ∨ after = []) :
    close opened (inner ++ after) =
      (close opened inner).map (Prod.map id (· ++ after)) := by
  rcases h with hcloses | rfl
  · obtain ⟨inside, rest, hclose⟩ := @exists_close opened inner hcloses
    rw [close_append_right hclose, hclose]
    rfl
  · rw [List.append_nil]
    cases close opened inner with
    | error => rfl
    | ok r => simp [Except.map, Prod.map]

/-- **A group is the same** where it is looked for in the whole tag and where it
is looked for in the characters of a range, behind a name in it. -/
theorem Nesting.close_in_place {src before name inner gap after : List Char}
    (hsrc : src = before ++ (name ++ '(' :: inner) ++ (gap ++ after)) (hn : IsName name)
    (hopen : Pass.closes {} (name ++ '(' :: inner ++ gap) = true ∨ after = []) :
    close (width before + width name) (dropBytes (width before + width name + 1) src) =
      (close (width before + width name) (inner ++ gap)).map (Prod.map id (· ++ after)) := by
  have hdrop : dropBytes (width before + width name + 1) src = inner ++ gap ++ after := by
    have hsplit : src = (before ++ name ++ ['(']) ++ (inner ++ gap ++ after) := by
      rw [hsrc]
      simp
    have hwidth : width (before ++ name ++ ['(']) = width before + width name + 1 := by
      rw [width_append, width_append]
      rfl
    rw [hsplit, ← hwidth, dropBytes_width]
  have hopened : Pass.closes {} ('(' :: (inner ++ gap)) = true ∨ after = [] := by
    refine hopen.imp_left fun hcloses => ?_
    rw [List.append_assoc, (hn.skips _).1] at hcloses
    exact hcloses
  rw [hdrop]
  exact close_append_of_closes _ hopened

section

variable {src before core gap after : List Char}
  {argumentsAt : Span → Except Fault (List Arg)}
  {arguments : Nat → List Char → Except Fault (List Arg)}

namespace Segment

variable {stop pos : Nat} {name rest inner : List Char}

theorem readAt_misplaced (hslice : Span.slice src ⟨pos, stop⟩ = core)
    (h : Stops isNameChar core) :
    readAt src argumentsAt stop pos = .error (RawSegment.misplaced pos core) := by
  unfold readAt
  simp only [hslice, takeWhile_stops h]
  rfl

theorem readAt_bare (hslice : Span.slice src ⟨pos, stop⟩ = name ++ rest) (hn : IsName name)
    (hr : RawSegment.Ends rest) :
    readAt src argumentsAt stop pos = .ok (.bare (String.ofList name), pos + width name) := by
  have hstop : Stops isNameChar rest := fun c hc => (hr c hc).1
  have hne : name.isEmpty = false := by simpa using hn.nonempty
  unfold readAt
  simp only [hslice, takeWhile_append_stops hn.chars hstop, dropWhile_append_stops hn.chars hstop,
    hne, Bool.false_eq_true, if_false]
  split
  · exact absurd rfl (hr '(' rfl).2
  · rfl

theorem readAt_call (hslice : Span.slice src ⟨pos, stop⟩ = name ++ '(' :: inner)
    (hn : IsName name) : readAt src argumentsAt stop pos =
      match Nesting.close (pos + width name) (dropBytes (pos + width name + 1) src) with
      | .error fault => .error fault
      | .ok (inside, _) =>
        if stop ≤ pos + width name + 1 + width inside then
          .error ⟨.unclosedParen, .char (pos + width name) '('⟩
        else
          (argumentsAt ⟨pos + width name + 1, pos + width name + 1 + width inside⟩).map fun args =>
            (.call (String.ofList name) args, pos + width name + 1 + width inside + 1) := by
  have hstop : Stops isNameChar ('(' :: inner) := stops_cons.2 (by decide)
  have hne : name.isEmpty = false := by simpa using hn.nonempty
  unfold readAt
  simp only [hslice, takeWhile_append_stops hn.chars hstop, dropWhile_append_stops hn.chars hstop,
    hne, Bool.false_eq_true, if_false]

end Segment

/-- The reader of the whole tag reads what a group holds as the other reader
does, if what it holds is closed. -/
def Arg.ReadsInPlace (src : List Char) (argumentsAt : Span → Except Fault (List Arg))
    (arguments : Nat → List Char → Except Fault (List Arg)) : Prop :=
  ∀ before inside after, src = before ++ '(' :: inside ++ ')' :: after →
    Pass.closes {} inside = true →
    argumentsAt ⟨width before + 1, width before + 1 + width inside⟩ =
      arguments (width before) inside

variable (hsrc : src = before ++ core ++ (gap ++ after)) (hgap : Blanks gap)
  (hopen : Pass.closes {} (core ++ gap) = true ∨ after = [])

include hsrc hgap hopen

/-- **A segment is read in place** as it is read alone, though its group is
looked for in the whole tag. It leaves the same text, but for the white space at
the end. -/
theorem Segment.readAt_of_scanOne (ha : Arg.ReadsInPlace src argumentsAt arguments) :
    (∀ fault, RawSegment.scanOne (width before) (core ++ gap) = .error fault →
      readAt src argumentsAt (width before + width core) (width before) = .error fault) ∧
    ∀ s rest, RawSegment.scanOne (width before) (core ++ gap) = .ok (s, rest) →
      readAt src argumentsAt (width before + width core) (width before) =
        (read arguments s).map (fun segment => (segment, width before + width s.text)) ∧
      ∃ core', core = s.text ++ core' ∧ rest = core' ++ gap := by
  have hslice : Span.slice src ⟨width before, width before + width core⟩ = core := by
    rw [hsrc]
    exact Span.slice_append ..
  rcases RawSegment.shape core with hstops | ⟨name, tail, rfl, hn, hr⟩ | ⟨name, inner, rfl, hn⟩
  · -- no name
    have hstops' : Stops isNameChar (core ++ gap) := by
      cases core with
      | nil => exact fun c hc => (RawSegment.ends_of_blanks hgap c hc).1
      | cons c more => exact hstops
    rw [RawSegment.scanOne_misplaced hstops', RawSegment.misplaced_append hgap,
      readAt_misplaced hslice hstops]
    exact ⟨fun fault h => by simpa using h, fun s rest h => by simp at h⟩
  · -- a name alone
    rw [List.append_assoc, RawSegment.scanOne_bare hn (hr.append_blanks hgap),
      readAt_bare hslice hn hr]
    refine ⟨fun fault h => by simp at h, fun s rest h => ?_⟩
    simp only [Except.ok.injEq, Prod.mk.injEq] at h
    obtain ⟨rfl, rfl⟩ := h
    refine ⟨?_, tail, by simp [RawSegment.text], rfl⟩
    simp [read, RawSegment.text, Except.map]
  · -- a name and a parenthesis
    have hcall := @readAt_call src argumentsAt _ _ name inner hslice hn
    rw [Nesting.close_in_place hsrc hn hopen] at hcall
    rw [List.append_assoc, List.cons_append, RawSegment.scanOne_call hn, hcall]
    cases hclose : Nesting.close (width before + width name) (inner ++ gap) with
    | error fault =>
      refine ⟨fun fault' h => ?_, fun s rest h => by simp [Except.map] at h⟩
      simpa [Except.map] using h
    | ok r =>
      obtain ⟨inside, more⟩ := r
      refine ⟨fun fault h => by simp [Except.map] at h, fun s rest h => ?_⟩
      simp only [Except.map, Except.ok.injEq, Prod.mk.injEq] at h
      obtain ⟨rfl, rfl⟩ := h
      obtain ⟨core', rfl, rfl⟩ :=
        eq_append_of_append_blanks hgap (by decide) (Nesting.eq_of_close hclose)
      have hread := ha (before ++ name) inside (core' ++ gap ++ after) (by rw [hsrc]; simp)
        (Nesting.closes_inside hclose).1
      rw [width_append] at hread
      have hend : width before + width (RawSegment.text ⟨width before, name, some inside⟩) =
          width before + width name + 1 + width inside + 1 := by
        show width before + width (name ++ ('(' :: inside ++ [')'])) = _
        rw [width_append, width_group]
        omega
      -- the group ends before the range does
      have hbefore : ¬ width before + width (name ++ '(' :: (inside ++ ')' :: core')) ≤
          width before + width name + 1 + width inside := by
        have hcore : name ++ '(' :: (inside ++ ')' :: core') =
            name ++ ('(' :: inside ++ [')']) ++ core' := by simp
        rw [hcore, width_append, width_append, width_group]
        omega
      refine ⟨?_, core', by simp [RawSegment.text], rfl⟩
      simp only [Except.map, Prod.map, id]
      rw [if_neg hbefore, hread, hend, read]
      simp only [RawSegment.opened]
      cases arguments (width before + width name) inside <;> rfl

theorem Path.stepsAt_of_scanOne (ha : Arg.ReadsInPlace src argumentsAt arguments)
    {s : RawSegment} {rest : List Char}
    (hone : RawSegment.scanOne (width before) (core ++ gap) = .ok (s, rest)) :
    ∃ core', core = s.text ++ core' ∧ rest = core' ++ gap ∧
      stepsAt src argumentsAt (width before + width core) (width before) =
        (Segment.read arguments s).bind fun segment =>
          match core' with
          | [] => .ok [segment]
          | c :: more =>
            if c = '.' then
              (stepsAt src argumentsAt (width before + width core)
                (width before + width s.text + 1)).map (segment :: ·)
            else .error (RawSegment.misplaced (width before + width s.text) (c :: more)) := by
  obtain ⟨hread, core', rfl, rfl⟩ :=
    (Segment.readAt_of_scanOne hsrc hgap hopen ha).2 s rest hone
  have hslice : Span.slice src ⟨width before + width s.text,
      width before + width (s.text ++ core')⟩ = core' := by
    have hsplit : src = before ++ s.text ++ core' ++ (gap ++ after) := by
      rw [hsrc]
      simp
    rw [hsplit, width_append, ← Nat.add_assoc, ← width_append]
    exact Span.slice_append ..
  refine ⟨core', rfl, rfl, ?_⟩
  rw [stepsAt_eq, hread]
  cases Segment.read arguments s with
  | error fault => rfl
  | ok segment =>
    simp only [Except.map, hslice]
    cases core' <;> rfl

end

theorem eq_nil_of_blanks {cs : List Char} (hlast : ∀ c ∈ cs.getLast?, isBlank c = false)
    (h : Blanks cs) : cs = [] := by
  by_contra hne
  have hblank := h _ (List.getLast_mem hne)
  rw [hlast _ (List.getLast?_eq_some_getLast hne)] at hblank
  simp at hblank

theorem last_of_append {xs ys : List Char} (h : ∀ c ∈ (xs ++ ys).getLast?, isBlank c = false) :
    ∀ c ∈ ys.getLast?, isBlank c = false := by
  intro c hc
  refine h c ?_
  rw [List.getLast?_append, Option.mem_def.1 hc]
  rfl

/-- **The segments of a path are read in place** as they are read alone. -/
theorem Path.stepsAt_of_scan {src gap after : List Char}
    {argumentsAt : Span → Except Fault (List Arg)}
    {arguments : Nat → List Char → Except Fault (List Arg)}
    (ha : Arg.ReadsInPlace src argumentsAt arguments) (hgap : Blanks gap) (pos : Nat)
    (cs : List Char) {before core : List Char} (hpos : pos = width before)
    (hcs : cs = core ++ gap) (hsrc : src = before ++ core ++ (gap ++ after))
    (hopen : Pass.closes {} cs = true ∨ after = [])
    (hlast : ∀ c ∈ core.getLast?, isBlank c = false) :
    stepsAt src argumentsAt (pos + width core) pos =
      (RawSegment.scan pos cs).traverse (Segment.read arguments) := by
  fun_induction RawSegment.scan pos cs generalizing before core with
  | case1 pos cs fault hone =>
    subst hpos hcs
    have hread := (Segment.readAt_of_scanOne hsrc hgap hopen ha).1 fault hone
    rw [stepsAt_eq, hread]
    rfl
  | case2 pos cs s hone =>
    subst hpos hcs
    obtain ⟨core', rfl, hrest, hsteps⟩ := stepsAt_of_scanOne hsrc hgap hopen ha hone
    obtain ⟨rfl, -⟩ := List.append_eq_nil_iff.1 hrest.symm
    rw [hsteps, Scan.traverse_cons]
    rfl
  | case3 pos cs s c rest hone hblank =>
    subst hpos hcs
    obtain ⟨core', rfl, hrest, hsteps⟩ := stepsAt_of_scanOne hsrc hgap hopen ha hone
    have hempty : core' = [] := by
      refine eq_nil_of_blanks (last_of_append hlast) fun d hd => List.all_eq_true.1 hblank d ?_
      rw [hrest]
      exact List.mem_append_left _ hd
    subst hempty
    rw [hsteps, Scan.traverse_cons]
    rfl
  | case4 pos cs s stop rest hone hblank _ =>
    rename_i ih
    subst hpos hcs
    obtain ⟨core', rfl, hrest, hsteps⟩ := stepsAt_of_scanOne hsrc hgap hopen ha hone
    cases core' with
    | nil =>
      have hdot : '.' ∈ gap := by
        rw [List.nil_append] at hrest
        rw [← hrest]
        exact List.mem_cons_self
      exact absurd (hgap '.' hdot) (by decide)
    | cons d core'' =>
      rw [List.cons_append, List.cons.injEq] at hrest
      obtain ⟨rfl, rfl⟩ := hrest
      have hopen' : Pass.closes {} (core'' ++ gap) = true ∨ after = [] := by
        refine hopen.imp_left fun hcloses => ?_
        rw [List.append_assoc, ((RawSegment.skips_text hone).1 _).1] at hcloses
        exact hcloses
      have hnext : stop + 1 = width (before ++ s.text ++ ['.']) := by
        rw [width_append, width_append]
        rfl
      have hlast' := @last_of_append (s.text ++ ['.']) core'' (by simpa using hlast)
      have hrest := ih hnext rfl (by rw [hsrc]; simp) hopen' hlast'
      have hstop : width before + width (s.text ++ '.' :: core'') = stop + 1 + width core'' := by
        rw [width_append, width_cons, ← Nat.add_assoc, ← Nat.add_assoc]
        rfl
      rw [hsteps, hstop, Scan.traverse_cons, ← hrest]
      rfl
  | case5 pos cs s stop c rest hone hblank hdot =>
    subst hpos hcs
    obtain ⟨core', rfl, hrest, hsteps⟩ := stepsAt_of_scanOne hsrc hgap hopen ha hone
    cases core' with
    | nil =>
      rw [List.nil_append] at hrest
      exact absurd (by rw [hrest]; exact hgap.all) hblank
    | cons d core'' =>
      have hmisplaced := RawSegment.misplaced_append hgap stop (d :: core'')
      rw [← hrest] at hmisplaced
      rw [List.cons_append, List.cons.injEq] at hrest
      obtain ⟨rfl, rfl⟩ := hrest
      simp only [if_neg hdot] at hsteps
      rw [hsteps, Scan.traverse_cons, Scan.traverse_failed, hmisplaced]
      cases Segment.read arguments s <;> rfl

/-! ### Paths, arguments and lists -/

section

variable {src before cs after : List Char} {argumentsAt : Span → Except Fault (List Arg)}
  {arguments : Nat → List Char → Except Fault (List Arg)}
  (hsrc : src = before ++ cs ++ after) (ha : Arg.ReadsInPlace src argumentsAt arguments)

include hsrc ha

/-- **A range of a text is read as its characters are alone**, from the place
where they begin, if everything in it is closed or it goes up to the end. -/
theorem Path.readAt_eq (hopen : Pass.closes {} cs = true ∨ after = []) :
    readAt src argumentsAt ⟨width before, width before + width cs⟩ =
      read arguments (width before) cs := by
  have hslice : Span.slice src ⟨width before, width before + width cs⟩ = cs := by
    rw [hsrc]
    exact Span.slice_append ..
  unfold readAt read trim
  simp only [hslice]
  have hstops := stops_dropWhile isBlank cs
  have hlead : cs.takeWhile isBlank ++ cs.dropWhile isBlank = cs :=
    List.takeWhile_append_dropWhile
  cases hd : cs.dropWhile isBlank with
  | nil => rfl
  | cons c rest =>
    rw [hd] at hstops hlead
    have hgap := Written.blanks_blankEnd (c :: rest)
    have hlast := Written.getLast?_trimEnd (c :: rest)
    have hsplit := Written.trimEnd_append_blankEnd (c :: rest)
    obtain ⟨more, hcore⟩ := Written.trimEnd_eq_cons (stops_cons.1 hstops) rest
    rw [hcore] at hlast hsplit ⊢
    by_cases hdot : c = '.'
    · have hempty : more.isEmpty = rest.all isBlank := by
        have hrest : more ++ Written.blankEnd (c :: rest) = rest := (List.cons.inj hsplit).2
        have hmore := @last_of_append [c] more hlast
        rw [← hrest, List.all_append, hgap.all, Bool.and_true]
        cases more with
        | nil => rfl
        | cons d ds =>
          have hnot : ¬ (d :: ds).all isBlank = true := fun hall =>
            absurd (eq_nil_of_blanks hmore (List.all_eq_true.1 hall)) (by simp)
          rw [List.isEmpty_cons, Bool.eq_false_iff.2 hnot]
      simp only [if_pos hdot, hempty]
    · have hopen' : Pass.closes {} (c :: rest) = true ∨ after = [] := by
        refine hopen.imp_left fun hcloses => ?_
        rw [← hlead, ((blanks_takeWhile cs).skips _).1] at hcloses
        exact hcloses
      have hplace : src = before ++ cs.takeWhile isBlank ++ (c :: more) ++
          (Written.blankEnd (c :: rest) ++ after) := by
        rw [List.append_assoc (before ++ _), ← List.append_assoc (c :: more), hsplit,
          List.append_assoc, ← List.append_assoc (cs.takeWhile isBlank), hlead,
          ← List.append_assoc]
        exact hsrc
      have hsteps := stepsAt_of_scan ha hgap (width (before ++ cs.takeWhile isBlank)) (c :: rest)
        rfl hsplit.symm hplace hopen' hlast
      rw [width_append] at hsteps
      simp only [if_neg hdot, hsteps]

/-- **An argument is read in place** as it is read alone. -/
theorem Arg.readAt_eq {t : Token} (htext : t.text = cs) (hstart : t.start = width before)
    {c : Char} {rest more : List Char}
    (hw : Written.scan t.start c rest = .ok (t.written, more)) :
    readAt src argumentsAt t = read arguments t := by
  obtain ⟨start, w⟩ := t
  simp only at hstart
  subst hstart htext
  cases w with
  | quoted mark body => rfl
  | number n => rfl
  | reference name =>
    have hcloses := (Written.checked_of_scan hw).1
    have hpath := Path.readAt_eq hsrc ha (Or.inl hcloses)
    exact congrArg (Except.map Arg.path) hpath
  | list gap inside =>
    have htext : src = before ++ (Written.listWord ++ gap) ++ '(' :: inside ++ ')' :: after := by
      rw [hsrc]
      simp [Token.text, Written.text]
    have hopening : Written.listOpening? (dropBytes (width before) src) =
        some (gap, inside ++ ')' :: after) := by
      have hlist := @Written.listOpening?_append gap (inside ++ ')' :: after)
        (Written.blanks_of_scan hw)
      rw [htext, List.append_assoc, List.append_assoc before, dropBytes_width]
      exact hlist
    have hopened : Written.listOpened (width before) gap =
        width (before ++ (Written.listWord ++ gap)) := by
      rw [Written.listOpened, width_append, width_append, Nat.add_assoc]
    have hstop : (Token.span ⟨width before, .list gap inside⟩).stop - 1 =
        Written.listOpened (width before) gap + 1 + width inside := by
      show width before + width (Written.listWord ++ gap ++ '(' :: inside ++ [')']) - 1 = _
      rw [List.append_assoc, Written.listOpened, width_append, width_append, width_group]
      omega
    have hinside := ha (before ++ (Written.listWord ++ gap)) inside after htext
      (Written.checked_of_scan hw)
    rw [← hopened] at hinside
    simp only [readAt, read, hopening, hstop, hinside]

end

/-- **What a group holds is read in place** as it is read alone, with any number
of levels. -/
theorem Arg.readListAt_eq (src : List Char) : ∀ levels,
    ReadsInPlace src (readListAt src levels) (readList levels)
  | 0 => fun _ _ _ _ _ => rfl
  | levels + 1 => by
    intro before inside after hsrc hcloses
    have hbehind : src = before ++ ['('] ++ inside ++ ')' :: after := by
      rw [hsrc]
      simp
    have hopened : width (before ++ ['(']) = width before + 1 := by
      rw [width_append]
      rfl
    have hslice : Span.slice src ⟨width before + 1, width before + 1 + width inside⟩ = inside := by
      rw [hbehind, ← hopened]
      exact Span.slice_append ..
    have hscan := Token.scan_add (width before + 1) 0 inside
    rw [Nat.zero_add] at hscan
    show ((Token.scan 0 (Span.slice src _)).moved (Token.moved (width before + 1)) _).traverse
      (readAt src (readListAt src levels)) =
        (Token.scan (width before + 1) inside).traverse (read (readList levels))
    rw [hslice, ← hscan]
    refine Scan.traverse_congr fun t ht => ?_
    obtain ⟨⟨start, hstart, left, right, hinside, rfl, -⟩, c, rest, more, hw⟩ :=
      Token.stands_of_scan _ _ t ht
    have hplace : src = (before ++ ['('] ++ left) ++ t.text ++ (right ++ ')' :: after) := by
      rw [hbehind, hinside]
      simp
    refine readAt_eq hplace (readListAt_eq src levels) rfl ?_ hw
    rw [hstart, width_append, hopened]

/-! ### Whole tags and their arguments -/

namespace Path

/-- **The whole tag is read in place** as it is read by `parse`. -/
theorem parseAt_whole (tag : String) :
    parseAt tag maxNesting ⟨0, width tag.toList⟩ = parse tag := by
  have hsrc : tag.toList = [] ++ tag.toList ++ [] := by simp
  have hread := readAt_eq hsrc (Arg.readListAt_eq tag.toList maxNesting) (Or.inr rfl)
  rw [width_nil, Nat.zero_add] at hread
  rw [parseAt, parse, hread]

theorem parseAt_eq_parse {tag : String} (hnests : Pass.NestsWithin maxNesting tag.toList)
    {n opened : Nat} {inside : List Char} (h : Reaches tag.toList n opened inside) {t : Token}
    (ht : t ∈ (Token.scan (opened + 1) inside).items) {name : List Char}
    (hname : t.written = .reference name) :
    parseAt tag (maxNesting - (n + 1)) t.span =
      (parse (String.ofList name)).mapError (SyntaxError.shifted t.start tag) := by
  obtain ⟨start, w⟩ := t
  simp only at hname
  subst hname
  obtain ⟨hgroup, hcloses⟩ := h.stands
  have hstands := hgroup.argument hcloses ht
  obtain ⟨-, c, rest, more, hw⟩ := Token.stands_of_scan _ _ _ ht
  have hcloses' := (Written.checked_of_scan hw).1
  obtain ⟨hdeep, hwithin⟩ := hstands.nestsWithin hcloses' hnests
  obtain ⟨before, after, hsrc, rfl, -⟩ := hstands
  have hplace : readAt tag.toList (Arg.readListAt tag.toList (maxNesting - (n + 1)))
      ⟨width before, width before + width name⟩ =
        read (Arg.readList (maxNesting - (n + 1))) (width before) name :=
    readAt_eq hsrc (Arg.readListAt_eq tag.toList _) (Or.inl hcloses')
  have hlevels : read (Arg.readList (maxNesting - (n + 1))) (width before) name =
      read (Arg.readList maxNesting) (width before) name :=
    read_of_nestsWithin hwithin (Nat.le_refl _) (Nat.sub_le ..)
  have hmoved := @read_add (Arg.readList maxNesting) (Arg.readList maxNesting) (width before) 0
    name fun _ _ _ => Arg.readList_add ..
  rw [Nat.zero_add] at hmoved
  have hread := hplace.trans (hlevels.trans hmoved)
  show (readAt tag.toList _ ⟨width before, width before + width name⟩).mapError _ = _
  rw [hread, parse, String.toList_ofList]
  cases read (Arg.readList maxNesting) 0 name <;> rfl

/-- **Reading is local.** Take a tag whose parentheses outside of quoted texts
nest no deeper than argument lists may, and a reference in any list that is come
to. Read where it stands, with the levels that are left there, it is read as the
path that its text alone is read as, or as none if its text is none. Then the
error is the one that its text has, at the same distance from where it begins. -/
theorem parseAt_reference {tag : String} (hnests : Pass.NestsWithin maxNesting tag.toList)
    {n opened : Nat} {inside : List Char} (h : Reaches tag.toList n opened inside) {t : Token}
    (ht : t ∈ (Token.scan (opened + 1) inside).items) {name : List Char}
    (hname : t.written = .reference name) :
    t.span.slice tag.toList = name ∧
      (∀ q, parseAt tag (maxNesting - (n + 1)) t.span = .ok q ↔
        parse (String.ofList name) = .ok q) ∧
      ∀ e, parse (String.ofList name) = .error e →
        parseAt tag (maxNesting - (n + 1)) t.span = .error (e.shifted t.span.start tag) := by
  have hread := parseAt_eq_parse hnests h ht hname
  refine ⟨?_, fun q => ?_, fun e he => ?_⟩
  · obtain ⟨hgroup, hcloses⟩ := h.stands
    obtain ⟨before, after, hsrc, hstart, -⟩ := hgroup.argument hcloses ht
    have htext : t.text = name := by
      rw [Token.text, hname]
      rfl
    rw [Token.span, Span.covering, hstart, hsrc, htext]
    exact Span.slice_append ..
  · rw [hread]
    cases parse (String.ofList name) <;> simp [Except.mapError]
  · rw [hread, he]
    rfl

/-- A path that ends with a dot, in a list in a call. -/
theorem parseAt_reference_nested :
    parse "g." = .error ⟨.emptySegment, ⟨2, 2⟩, "g."⟩ ∧
      parseAt "é(array(g.))" 30 ⟨9, 11⟩ =
        .error ⟨.emptySegment, ⟨11, 11⟩, "é(array(g.))"⟩ := by
  have hparse : parse (String.ofList ['g', '.']) = .error ⟨.emptySegment, ⟨2, 2⟩, "g."⟩ := by
    with_unfolding_all rfl
  have htag : "é(array(g.))".toList =
      ['é', '(', 'a', 'r', 'r', 'a', 'y', '(', 'g', '.', ')', ')'] := by decide +kernel
  have hnests : Pass.NestsWithin maxNesting "é(array(g.))".toList := by
    intro before hbefore
    have hall : ∀ before ∈ "é(array(g.))".toList.inits,
        (Pass.after {} before).depth ≤ maxNesting := by
      rw [htag]
      decide +kernel
    exact hall before ((List.mem_inits ..).2 hbefore)
  have houter : Reaches "é(array(g.))".toList 0 2
      ['a', 'r', 'r', 'a', 'y', '(', 'g', '.', ')'] := by
    have hone : RawSegment.scanOne 0 "é(array(g.))".toList =
        .ok (⟨0, ['é'], some ['a', 'r', 'r', 'a', 'y', '(', 'g', '.', ')']⟩, []) := by
      rw [htag]
      decide +kernel
    have hstops : Stops isBlank "é(array(g.))".toList := by
      rw [htag]
      exact stops_cons.2 (by decide)
    refine .segment ⟨⟨0, ['é'], _⟩, ?_, rfl, rfl⟩
    rw [takeWhile_stops hstops, dropWhile_stops hstops, width_nil, RawSegment.scan_last hone rfl]
    exact List.mem_cons_self
  have hinner : Reaches "é(array(g.))".toList 1 8 ['g', '.'] := by
    have hcs : ['a', 'r', 'r', 'a', 'y', '(', 'g', '.', ')'].dropWhile Token.isSeparator =
        'a' :: ['r', 'r', 'a', 'y', '(', 'g', '.', ')'] := by decide
    have hw : Written.scan 3 'a' ['r', 'r', 'a', 'y', '(', 'g', '.', ')'] =
        .ok (.list [] ['g', '.'], []) := by decide +kernel
    have ht : ⟨3, .list [] ['g', '.']⟩ ∈
        (Token.scan (2 + 1) ['a', 'r', 'r', 'a', 'y', '(', 'g', '.', ')']).items := by
      rw [@Token.scan_last 3 _ _ _ _ _ hcs hw rfl]
      exact List.mem_cons_self
    exact houter.argument ht ⟨rfl, rfl⟩
  have hmem : ⟨9, .reference ['g', '.']⟩ ∈ (Token.scan (8 + 1) ['g', '.']).items := by
    have hcs : ['g', '.'].dropWhile Token.isSeparator = 'g' :: ['.'] := by decide
    have hw : Written.scan 9 'g' ['.'] = .ok (.reference ['g', '.'], []) := by decide +kernel
    rw [@Token.scan_last 9 _ _ _ _ _ hcs hw rfl]
    exact List.mem_cons_self
  obtain ⟨-, -, herror⟩ := parseAt_reference hnests hinner hmem rfl
  exact ⟨hparse, herror _ hparse⟩

end Path

end TagScope
