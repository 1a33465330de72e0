/-
# Reading a tag by places

A tag is read without being cut into characters first. The reader keeps two places, where
it is and where its range ends, and takes a slice of the whole tag only when it has found a
name, a text or a number. At every place where it takes one, a slice could be missing: a
place could lie behind the end of the tag or inside a character, an end could be in front of
a beginning, and one byte could be taken off a text that has none.

None of that happens. A range that is a slice is only ever cut into slices
(`segment_eq`, `path_eq`), the argument of a list is a slice of the list and so of the tag
(`arg_eq`, `argsAt_eq`), and where one byte is taken off, a mark or a parenthesis stands. So
reading by places gives for every range the answer that `Path.readAt` gives, and for every
tag the one that `Path.parse` gives (`parse_eq`).

Key definitions: `charAt`, `identEnd`, `segment`, `steps`, `path`, `arg`, `argsAt`, `parse`.
Key theorems: `segment_eq`, `steps_eq`, `path_eq`, `arg_eq`, `argsAt_eq`, `parse_eq`,
`reads_in_bounds`.
-/
import TagScope.Proofs.Yielding

namespace TagScope
namespace InBytes

variable {src text mid cs : List Char} {pos start stop : Nat}

/-! ### The reader -/

/-- The character at `pos`, if that is before `stop`. -/
def charAt (src : List Char) (pos stop : Nat) : Option (Option Char) :=
  if stop ≤ pos then some none else (tail? src pos).map List.head?

theorem exists_of_charAt {c : Char} (h : charAt src pos stop = some (some c)) :
    pos < stop ∧ ∃ rest, tail? src pos = some (c :: rest) := by
  rw [charAt] at h
  split at h
  · simp at h
  · obtain ⟨cs, htail, hhead⟩ := Option.map_eq_some_iff.1 h
    obtain ⟨rest, rfl⟩ := List.head?_eq_some_iff.1 hhead
    exact ⟨by omega, rest, htail⟩

/-- Where the name ends that begins at `pos`. -/
def identEnd (src : List Char) (stop pos : Nat) : Option Nat :=
  match _h : charAt src pos stop with
  | none => none
  | some none => some pos
  | some (some c) => if isNameChar c then identEnd src stop (pos + c.utf8Size) else some pos
termination_by stop - pos
decreasing_by
  have hsize := c.utf8Size_pos
  have hlt := (exists_of_charAt _h).1
  omega

/-- What is wrong where a name or a dot should stand. -/
def unexpected (c : Option Char) (pos : Nat) : Fault :=
  match c with
  | none => ⟨.emptySegment, ⟨pos, pos⟩⟩
  | some c =>
    if c = '.' then ⟨.emptySegment, ⟨pos, pos + 1⟩⟩
    else if c = ')' then ⟨.unmatchedParen, ⟨pos, pos + 1⟩⟩
    else ⟨.unexpectedChar c, ⟨pos, pos + c.utf8Size⟩⟩

/-- The segment that begins at `pos`, and where it ends. `arguments` reads the argument list
in a range, and `first` says whether no segment has been read before. -/
def segment (src : List Char) (arguments : Span → Guarded (List Arg)) (stop : Nat) (first : Bool)
    (pos : Nat) : Guarded (Segment × Nat) := do
  let nameEnd ← identEnd src stop pos
  if nameEnd = pos then
    let c ← charAt src pos stop
    if c = some '.' && first then throw ⟨.misplacedDot, ⟨pos, pos + 1⟩⟩
    else throw (unexpected c pos)
  else
    let name ← slice? src pos nameEnd
    let c ← charAt src nameEnd stop
    if c = some '(' then
      let closed ← scanGroup src nameEnd
      if stop ≤ closed then throw ⟨.unclosedParen, ⟨nameEnd, nameEnd + 1⟩⟩
      else
        let args ← arguments ⟨nameEnd + 1, closed⟩
        pure (.call (String.ofList name) args, closed + 1)
    else pure (.bare (String.ofList name), nameEnd)

theorem le_of_identEnd {next : Nat} (h : identEnd src stop pos = some next) : pos ≤ next := by
  fun_induction identEnd src stop pos with
  | case1 => simp at h
  | case2 => exact Nat.le_of_eq (Option.some.inj h)
  | case3 pos c _ _ ih => exact Nat.le_trans (Nat.le_add_right ..) (ih h)
  | case4 => exact Nat.le_of_eq (Option.some.inj h)

theorem lt_of_segment {arguments : Span → Guarded (List Arg)} {first : Bool} {s : Segment}
    {next : Nat} (h : segment src arguments stop first pos = answer (.ok (s, next))) :
    pos < next := by
  unfold segment at h
  obtain ⟨nameEnd, hname, h⟩ := lift_bind_eq_ok.1 h
  have hle := le_of_identEnd hname
  split at h
  · obtain ⟨c, -, h⟩ := lift_bind_eq_ok.1 h
    split at h <;> cases h
  · obtain ⟨name, -, h⟩ := lift_bind_eq_ok.1 h
    obtain ⟨c, hc, h⟩ := lift_bind_eq_ok.1 h
    split at h
    · rename_i hparen
      rw [hparen] at hc
      obtain ⟨-, rest, htail⟩ := exists_of_charAt hc
      obtain ⟨closed, hclosed, h⟩ := bind_eq_ok.1 h
      obtain ⟨inside, after, -, rfl, -⟩ := of_scanGroup_eq_ok htail hclosed
      split at h
      · cases h
      · obtain ⟨args, -, h⟩ := bind_eq_ok.1 h
        obtain ⟨-, rfl⟩ := Prod.mk.inj (Except.ok.inj (Option.some.inj h))
        omega
    · obtain ⟨-, rfl⟩ := Prod.mk.inj (Except.ok.inj (Option.some.inj h))
      omega

/-- The segments from `pos` on. -/
def steps (src : List Char) (arguments : Span → Guarded (List Arg)) (stop : Nat) (first : Bool)
    (pos : Nat) : Guarded (List Segment) :=
  match _h : segment src arguments stop first pos with
  | none => none
  | some (.error fault) => throw fault
  | some (.ok (s, next)) =>
    match _hc : charAt src next stop with
    | none => none
    | some none => pure [s]
    | some (some c) =>
      if c = '.' then (s :: ·) <$> steps src arguments stop false (next + 1)
      else throw (unexpected (some c) next)
termination_by stop - pos
decreasing_by
  have hpos := lt_of_segment _h
  have hnext := (exists_of_charAt _hc).1
  omega

theorem steps_def (src : List Char) (arguments : Span → Guarded (List Arg)) (stop : Nat)
    (first : Bool) (pos : Nat) : steps src arguments stop first pos =
      match segment src arguments stop first pos with
      | none => none
      | some (.error fault) => throw fault
      | some (.ok (s, next)) =>
        match charAt src next stop with
        | none => none
        | some none => pure [s]
        | some (some c) =>
          if c = '.' then (s :: ·) <$> steps src arguments stop false (next + 1)
          else throw (unexpected (some c) next) := by
  rw [steps]
  grind

/-- The path in a range. -/
def path (src : List Char) (arguments : Span → Guarded (List Arg)) (range : Span) :
    Guarded Path := do
  let text ← slice? src range.start range.stop
  let lead ← sub? (width text) (width (text.dropWhile isBlank))
  let start := range.start + lead
  let stop := range.start + width (Written.trimEnd text)
  if stop ≤ start then throw ⟨.emptyPath, range⟩
  else
    let core ← slice? src start stop
    if core = ['.'] then pure .current
    else .segments <$> steps src arguments stop true start

/-- An integer with nothing before it and nothing behind it. -/
def int64? (cs : List Char) : Option Int64 :=
  match Numeral.scan? cs with
  | some (n, []) => if n.isDecimal then none else n.toInt64?
  | _ => none

/-- The argument of a kind that a span covers. -/
def arg (src : List Char) (arguments : Span → Guarded (List Arg)) (kind : ArgumentKind)
    (span : Span) : Guarded Arg := do
  let text ← slice? src span.start span.stop
  match kind with
  | .text =>
    let stop ← sub? (width text) 1
    let body ← slice? text 1 stop
    pure (.literal (.text (String.ofList (Quoted.decode body))))
  | .integer =>
    match int64? text with
    | some i => pure (.literal (.int i))
    | none => throw ⟨.invalidNumber, span⟩
  | .decimal =>
    match Binary64.ofText? (String.ofList text) with
    | some x => pure (.literal (.float x))
    | none => throw ⟨.invalidNumber, span⟩
  | .list =>
    match ← arrayOpen src span.start with
    | none => throw ⟨.unexpectedChar 'a', span⟩
    | some opened =>
      let stop ← sub? span.stop 1
      .list <$> arguments ⟨opened + 1, stop⟩
  | .reference => .path <$> path src arguments span

/-- The arguments in a range, of which each is read as soon as it is found. `levels` argument
lists may be open at a time. -/
def argsAt (src : List Char) : (levels : Nat) → Span → Guarded (List Arg)
  | 0, range => do
    let opened ← sub? range.start 1
    throw ⟨.tooDeep, ⟨opened, range.start⟩⟩
  | levels + 1, range => do
    let text ← slice? src range.start range.stop
    Splitter.traverse (Fault.shift range.start)
      (fun raw => arg src (argsAt src levels) raw.kind (raw.span.shift range.start))
      ⟨text, 0, false⟩

/-- Reads a tag. -/
def parse (tag : String) : Option (Except SyntaxError Path) :=
  (path tag.toList (argsAt tag.toList Path.maxNesting) ⟨0, width tag.toList⟩).run.map
    (Except.mapError (Fault.within tag))

/-! ### Places in a range -/

theorem charAt_eq (h : slice? src pos stop = some mid) : charAt src pos stop = some mid.head? := by
  obtain ⟨⟨after, htail⟩, rfl⟩ := tail?_of_slice? h
  cases mid with
  | nil => exact if_pos (Nat.le_refl _)
  | cons c mid =>
    have hsize := c.utf8Size_pos
    rw [charAt, if_neg (by rw [width_cons]; omega), htail]
    rfl

theorem identEnd_eq (h : slice? src pos stop = some mid) :
    identEnd src stop pos = some (pos + width (mid.takeWhile isNameChar)) := by
  fun_induction identEnd src stop pos generalizing mid with
  | case1 pos hnone => exact absurd ((charAt_eq h).symm.trans hnone) (by simp)
  | case2 pos hend =>
    have hhead := Option.some.inj ((charAt_eq h).symm.trans hend)
    rw [List.head?_eq_none_iff] at hhead
    rw [hhead]
    rfl
  | case3 pos c hc hname ih =>
    have hhead := Option.some.inj ((charAt_eq h).symm.trans hc)
    obtain ⟨rest, rfl⟩ := List.head?_eq_some_iff.1 hhead
    rw [ih (slice?_next h), List.takeWhile_cons, if_pos hname, width_cons, Nat.add_assoc]
  | case4 pos c hc hname =>
    have hhead := Option.some.inj ((charAt_eq h).symm.trans hc)
    obtain ⟨rest, rfl⟩ := List.head?_eq_some_iff.1 hhead
    rw [List.takeWhile_cons, if_neg hname]
    rfl

/-! ### Segments -/

theorem dropBytes_of_tail? (h : tail? src pos = some cs) : dropBytes pos src = cs := by
  obtain ⟨before, rfl, rfl⟩ := tail?_eq_some_iff.1 h
  exact dropBytes_width before cs

theorem slice_of_slice? (h : slice? src start stop = some mid) :
    Span.slice src ⟨start, stop⟩ = mid := by
  obtain ⟨before, after, rfl, rfl, rfl⟩ := slice?_eq_some_iff.1 h
  exact Span.slice_append ..

/-- Where a path ends there is no white space, so the first character says what is wrong. -/
theorem unexpected_eq (hlast : ∀ c ∈ mid.getLast?, isBlank c = false) (pos : Nat) :
    unexpected mid.head? pos = RawSegment.misplaced pos mid := by
  cases mid with
  | nil => rfl
  | cons c rest =>
    have hblank : ¬ (c :: rest).all isBlank = true := fun hall =>
      absurd (eq_nil_of_blanks hlast (List.all_eq_true.1 hall)) (by simp)
    simp only [List.head?_cons, unexpected, RawSegment.misplaced, if_neg hblank]
    by_cases hdot : c = '.'
    · subst hdot
      rfl
    · by_cases hparen : c = ')'
      · subst hparen
        rfl
      · rw [if_neg hdot, if_neg hdot, if_neg hparen, if_neg hparen]
        rfl

/-- A reader of argument lists gives the answers of another one for every slice with
something in front of it. -/
def Answers (src : List Char) (arguments : Span → Guarded (List Arg))
    (argumentsAt : Span → Except Fault (List Arg)) : Prop :=
  ∀ range text, slice? src range.start range.stop = some text → 0 < range.start →
    arguments range = answer (argumentsAt range)

section

variable {arguments : Span → Guarded (List Arg)} {argumentsAt : Span → Except Fault (List Arg)}
  {first : Bool}

theorem segment_nameless (h : slice? src pos stop = some mid) (hstops : Stops isNameChar mid) :
    segment src arguments stop first pos = answer (.error
      (if mid.head? = some '.' && first then ⟨.misplacedDot, ⟨pos, pos + 1⟩⟩
        else unexpected mid.head? pos)) := by
  rw [segment, identEnd_eq h, lift_some_bind, takeWhile_stops hstops, width_nil, Nat.add_zero,
    if_pos rfl, charAt_eq h, lift_some_bind]
  by_cases hdot : (mid.head? = some '.' && first) = true
  · rw [if_pos hdot, if_pos hdot]
    rfl
  · rw [if_neg hdot, if_neg hdot]
    rfl

theorem segment_misplaced (h : slice? src pos stop = some mid)
    (hlast : ∀ c ∈ mid.getLast?, isBlank c = false)
    (hfirst : first = true → mid.head? ≠ some '.') (hstops : Stops isNameChar mid) :
    segment src arguments stop first pos = answer (.error (RawSegment.misplaced pos mid)) := by
  have hdot : ¬ (mid.head? = some '.' && first) = true := by
    simp only [Bool.and_eq_true, decide_eq_true_eq, not_and]
    exact fun hhead hf => hfirst hf hhead
  rw [segment_nameless h hstops, if_neg hdot, unexpected_eq hlast]

theorem segment_bare {name rest : List Char} (h : slice? src pos stop = some (name ++ rest))
    (hn : IsName name) (hr : RawSegment.Ends rest) : segment src arguments stop first pos =
      answer (.ok (.bare (String.ofList name), pos + width name)) := by
  have hstop : Stops isNameChar rest := fun c hc => (hr c hc).1
  have hsize := width_pos hn.nonempty
  have hparen : ¬ rest.head? = some '(' := fun hhead => (hr '(' hhead).2 rfl
  rw [segment, identEnd_eq h, lift_some_bind, takeWhile_append_stops hn.chars hstop,
    if_neg (by omega), slice?_left h, lift_some_bind, charAt_eq (slice?_right h), lift_some_bind,
    if_neg hparen]
  rfl

/-- The group behind a name is looked for in the whole tag, and its arguments are read if it
ends in the range. -/
theorem segment_group {name inner : List Char}
    (h : slice? src pos stop = some (name ++ '(' :: inner)) (hn : IsName name) :
    segment src arguments stop first pos = scanGroup src (pos + width name) >>= fun closed =>
      if stop ≤ closed then
        answer (.error ⟨.unclosedParen, ⟨pos + width name, pos + width name + 1⟩⟩)
      else arguments ⟨pos + width name + 1, closed⟩ >>= fun args =>
        answer (.ok (.call (String.ofList name) args, closed + 1)) := by
  have hstop : Stops isNameChar ('(' :: inner) := stops_cons.2 (by decide)
  have hsize := width_pos hn.nonempty
  rw [segment, identEnd_eq h, lift_some_bind, takeWhile_append_stops hn.chars hstop,
    if_neg (by omega), slice?_left h, lift_some_bind, charAt_eq (slice?_right h), lift_some_bind,
    if_pos List.head?_cons]
  rfl

theorem segment_call {name inner after : List Char}
    (h : slice? src pos stop = some (name ++ '(' :: inner)) (hn : IsName name)
    (htail : tail? src (pos + width name) = some ('(' :: inner ++ after)) :
    segment src arguments stop first pos =
      match Nesting.close (pos + width name) (inner ++ after) with
      | .error fault => answer (.error fault)
      | .ok (inside, _) =>
        let closed := pos + width name + 1 + width inside
        if stop ≤ closed then
          answer (.error ⟨.unclosedParen, ⟨pos + width name, pos + width name + 1⟩⟩)
        else arguments ⟨pos + width name + 1, closed⟩ >>= fun args =>
          answer (.ok (.call (String.ofList name) args, closed + 1)) := by
  rw [segment_group h hn, scanGroup_eq htail]
  show (answer (Except.map _ (Nesting.close (pos + width name) (inner ++ after))) >>= _ :
    Guarded (Segment × Nat)) = _
  cases Nesting.close (pos + width name) (inner ++ after) <;> rfl

theorem segment_eq (h : slice? src pos stop = some mid)
    (hlast : ∀ c ∈ mid.getLast?, isBlank c = false)
    (hfirst : first = true → mid.head? ≠ some '.') (ha : Answers src arguments argumentsAt) :
    segment src arguments stop first pos = answer (Segment.readAt src argumentsAt stop pos) := by
  have hslice := slice_of_slice? h
  rcases RawSegment.shape mid with hstops | ⟨name, rest, rfl, hn, hr⟩ | ⟨name, inner, rfl, hn⟩
  · rw [segment_misplaced h hlast hfirst hstops, Segment.readAt_misplaced hslice hstops]
  · rw [segment_bare h hn hr, Segment.readAt_bare hslice hn hr]
  · obtain ⟨⟨after, htail⟩, -⟩ := tail?_of_slice? (slice?_right h)
    have hnext : tail? src (pos + width name + 1) = some (inner ++ after) := tail?_next htail
    rw [segment_call h hn htail, Segment.readAt_call hslice hn, dropBytes_of_tail? hnext]
    cases hclose : Nesting.close (pos + width name) (inner ++ after) with
    | error fault => rfl
    | ok r =>
      obtain ⟨inside, more⟩ := r
      rw [Nesting.eq_of_close hclose] at hnext
      have hread := ha ⟨_, _⟩ inside (slice?_of_tail? hnext) (Nat.succ_pos _)
      by_cases hend : stop ≤ pos + width name + 1 + width inside
      · simp only [if_pos hend]
        rfl
      · simp only [if_neg hend, hread]
        cases argumentsAt ⟨pos + width name + 1, pos + width name + 1 + width inside⟩ <;> rfl

theorem exists_of_readAt {s : Segment} {next : Nat} (h : slice? src pos stop = some mid)
    (hread : Segment.readAt src argumentsAt stop pos = .ok (s, next)) :
    ∃ text rest, mid = text ++ rest ∧ slice? src next stop = some rest := by
  have hslice := slice_of_slice? h
  rcases RawSegment.shape mid with hstops | ⟨name, rest, rfl, hn, hr⟩ | ⟨name, inner, rfl, hn⟩
  · rw [Segment.readAt_misplaced hslice hstops] at hread
    cases hread
  · rw [Segment.readAt_bare hslice hn hr] at hread
    obtain ⟨-, rfl⟩ := Prod.mk.inj (Except.ok.inj hread)
    exact ⟨name, rest, rfl, slice?_right h⟩
  · obtain ⟨⟨after, htail⟩, hstop⟩ := tail?_of_slice? (slice?_right h)
    have hnext : tail? src (pos + width name + 1) = some (inner ++ after) := tail?_next htail
    rw [Segment.readAt_call hslice hn, dropBytes_of_tail? hnext] at hread
    cases hclose : Nesting.close (pos + width name) (inner ++ after) with
    | error fault =>
      rw [hclose] at hread
      cases hread
    | ok r =>
      obtain ⟨inside, more⟩ := r
      simp only [hclose] at hread
      by_cases hend : stop ≤ pos + width name + 1 + width inside
      · rw [if_pos hend] at hread
        cases hread
      · rw [if_neg hend] at hread
        obtain ⟨args, -, heq⟩ := map_eq_ok.1 hread
        obtain ⟨-, rfl⟩ := Prod.mk.inj heq
        -- both the parenthesis and the end of the range are in the text
        have hinner := Nesting.eq_of_close hclose
        rw [hinner] at hnext
        have hclosed := tail?_next (tail?_add hnext)
        have hafter : tail? src stop = some after := hstop ▸ tail?_add htail
        obtain ⟨rest, rfl, hrest⟩ := exists_slice? hclosed hafter (Nat.lt_of_not_le hend)
        have hsplit : inner = inside ++ ')' :: rest :=
          List.append_cancel_right (hinner.trans (by simp))
        exact ⟨name ++ '(' :: inside ++ [')'], rest, by rw [hsplit]; simp, hrest⟩

theorem rest_of_segment {s : Segment} {next : Nat} (h : slice? src pos stop = some mid)
    (hlast : ∀ c ∈ mid.getLast?, isBlank c = false)
    (hfirst : first = true → mid.head? ≠ some '.') (ha : Answers src arguments argumentsAt)
    (hs : segment src arguments stop first pos = answer (.ok (s, next))) :
    Segment.readAt src argumentsAt stop pos = .ok (s, next) ∧
      ∃ rest, slice? src next stop = some rest ∧ ∀ c ∈ rest.getLast?, isBlank c = false := by
  have hread := Option.some.inj ((segment_eq h hlast hfirst ha).symm.trans hs)
  obtain ⟨text, rest, rfl, hrest⟩ := exists_of_readAt h hread
  exact ⟨hread, rest, hrest, last_of_append hlast⟩

/-- **The segments of a path are read** as they are in the whole tag. -/
theorem steps_eq (h : slice? src pos stop = some mid)
    (hlast : ∀ c ∈ mid.getLast?, isBlank c = false)
    (hfirst : first = true → mid.head? ≠ some '.') (ha : Answers src arguments argumentsAt) :
    steps src arguments stop first pos = answer (Path.stepsAt src argumentsAt stop pos) := by
  fun_induction steps src arguments stop first pos generalizing mid with
  | case1 first pos hnone =>
    exact absurd ((segment_eq h hlast hfirst ha).symm.trans hnone) (by simp [answer, ExceptT.mk])
  | case2 first pos fault hs =>
    have hread := Option.some.inj ((segment_eq h hlast hfirst ha).symm.trans hs)
    rw [Path.stepsAt_eq, hread]
    rfl
  | case3 first pos s next hs hnone =>
    obtain ⟨-, rest, hrest, -⟩ := rest_of_segment h hlast hfirst ha hs
    exact absurd ((charAt_eq hrest).symm.trans hnone) (by simp)
  | case4 first pos s next hs hend =>
    obtain ⟨hread, rest, hrest, -⟩ := rest_of_segment h hlast hfirst ha hs
    have hhead := Option.some.inj ((charAt_eq hrest).symm.trans hend)
    rw [List.head?_eq_none_iff] at hhead
    subst hhead
    simp only [Path.stepsAt_eq, hread, slice_of_slice? hrest]
    rfl
  | case5 first pos s next hs hdot ih =>
    obtain ⟨hread, rest, hrest, hlast'⟩ := rest_of_segment h hlast hfirst ha hs
    have hhead := Option.some.inj ((charAt_eq hrest).symm.trans hdot)
    obtain ⟨more, rfl⟩ := List.head?_eq_some_iff.1 hhead
    have hmore := ih (slice?_next hrest) (@last_of_append ['.'] more hlast') (by simp)
    rw [Path.stepsAt_eq, hread, hmore, answer_map]
    simp only [slice_of_slice? hrest, if_true]
  | case6 first pos s next hs c hc hdot =>
    obtain ⟨hread, rest, hrest, hlast'⟩ := rest_of_segment h hlast hfirst ha hs
    have hhead := Option.some.inj ((charAt_eq hrest).symm.trans hc)
    have hwrong := unexpected_eq hlast' next
    obtain ⟨more, rfl⟩ := List.head?_eq_some_iff.1 hhead
    rw [Path.stepsAt_eq, hread, ← hhead, hwrong]
    simp only [slice_of_slice? hrest, if_neg hdot]
    rfl

theorem steps_dot (h : slice? src pos stop = some ('.' :: mid)) :
    steps src arguments stop true pos = answer (.error ⟨.misplacedDot, .char pos '.'⟩) := by
  have hsegment : segment src arguments stop true pos =
      answer (.error ⟨.misplacedDot, .char pos '.'⟩) :=
    segment_nameless h (stops_cons.2 (by decide))
  rw [steps_def, hsegment]
  rfl

/-! ### Paths, arguments and lists -/

theorem trim_append (cs : List Char) (h : trim cs ≠ []) :
    Written.trimEnd cs = cs.takeWhile isBlank ++ trim cs ∧
      cs = cs.takeWhile isBlank ++ trim cs ++ Written.blankEnd (cs.dropWhile isBlank) := by
  have hsplit : cs = cs.takeWhile isBlank ++ trim cs ++
      Written.blankEnd (cs.dropWhile isBlank) := by
    rw [trim, List.append_assoc, Written.trimEnd_append_blankEnd, List.takeWhile_append_dropWhile]
  have hlast : ∀ c ∈ (cs.takeWhile isBlank ++ trim cs).getLast?, isBlank c = false := by
    rw [List.getLast?_append_of_ne_nil _ h]
    exact Written.getLast?_trimEnd _
  have hend := (Written.trimEnd_append (Written.blanks_blankEnd (cs.dropWhile isBlank)) hlast).1
  rw [← hsplit] at hend
  exact ⟨hend, hsplit⟩

theorem trimEnd_of_trim_eq_nil (h : trim cs = []) : Written.trimEnd cs = [] := by
  have hblank : Blanks cs := by
    intro c hc
    rw [← List.takeWhile_append_dropWhile (p := isBlank) (l := cs),
      ← Written.trimEnd_append_blankEnd (cs.dropWhile isBlank), ← trim, h, List.nil_append,
      List.mem_append] at hc
    exact hc.elim (blanks_takeWhile cs c) (Written.blanks_blankEnd _ c)
  exact (@Written.trimEnd_append [] cs hblank (by simp)).1

theorem sub?_dropWhile (cs : List Char) :
    sub? (width cs) (width (cs.dropWhile isBlank)) = some (width (cs.takeWhile isBlank)) := by
  rw [← sub?_add, ← width_append, List.takeWhile_append_dropWhile]

/-- **A path is read** in every slice of the tag. -/
theorem path_eq {range : Span} (h : slice? src range.start range.stop = some text)
    (ha : Answers src arguments argumentsAt) :
    path src arguments range = answer (Path.readAt src argumentsAt range) := by
  have hslice : range.slice src = text := slice_of_slice? h
  rw [path, h, lift_some_bind, sub?_dropWhile, lift_some_bind]
  unfold Path.readAt
  simp only [hslice]
  cases hcore : trim text with
  | nil =>
    rw [trimEnd_of_trim_eq_nil hcore, width_nil, Nat.add_zero, if_pos (Nat.le_add_right ..)]
    rfl
  | cons c more =>
    obtain ⟨hend, htext⟩ := trim_append text (by simp [hcore])
    have hlast := Written.getLast?_trimEnd (text.dropWhile isBlank)
    rw [← trim, hcore] at hlast
    rw [hcore] at hend htext
    rw [htext, List.append_assoc] at h
    have hpart := slice?_left (slice?_right h)
    have hsize := @width_pos (c :: more) (by simp)
    rw [hend, width_append, ← Nat.add_assoc, if_neg (by omega), hpart, lift_some_bind]
    by_cases hdot : c = '.'
    · subst hdot
      cases more with
      | nil => rfl
      | cons d more =>
        rw [if_neg (by simp), steps_dot hpart]
        rfl
    · rw [if_neg (by simp [hdot]), steps_eq hpart hlast (by simp [hdot]) ha, answer_map]
      simp only [if_neg hdot]

theorem int64?_text {n : Numeral} (hn : n.Proper) (hint : n.isDecimal = false) :
    int64? n.text = n.toInt64? := by
  have hscan := Numeral.scan?_append hn (stops_nil _)
  rw [List.append_nil] at hscan
  simp only [int64?, hscan, hint, Bool.false_eq_true, if_false]

theorem slice?_quoted {mark : Char} (hm : Quoted.isMark mark = true) (body : List Char) :
    sub? (width (mark :: body ++ [mark])) 1 = some (1 + width body) ∧
      slice? (mark :: body ++ [mark]) 1 (1 + width body) = some body := by
  have hsize := Quoted.size_of_isMark hm
  constructor
  · rw [← sub?_add, width_append, width_cons, width_cons, width_nil, hsize]
  · refine slice?_eq_some_iff.2 ⟨[mark], [mark], rfl, ?_, ?_⟩ <;> simp [hsize]

theorem slice?_list {gap inside : List Char}
    (h : slice? src start stop = some (Written.text (.list gap inside))) :
    sub? stop 1 = some (Written.listOpened start gap + 1 + width inside) ∧
      slice? src (Written.listOpened start gap + 1)
        (Written.listOpened start gap + 1 + width inside) = some inside := by
  obtain ⟨-, hstop⟩ := tail?_of_slice? h
  have hopened : Written.listOpened start gap + 1 =
      start + width (Written.listWord ++ gap ++ ['(']) := by
    rw [Written.listOpened, width_append, width_append]
    show _ = start + (_ + 1)
    omega
  have hsplit : Written.text (.list gap inside) =
      Written.listWord ++ gap ++ ['('] ++ (inside ++ [')']) := by
    simp [Written.text]
  rw [hsplit] at h
  rw [hsplit, width_append, ← Nat.add_assoc, ← hopened, width_append, ← Nat.add_assoc] at hstop
  rw [hstop]
  refine ⟨sub?_add _ 1, ?_⟩
  rw [hopened]
  exact slice?_left (slice?_right h)

theorem listOpening?_text {gap : List Char} (hblanks : Blanks gap) (inside after : List Char) :
    Written.listOpening? (Written.text (.list gap inside) ++ after) =
      some (gap, inside ++ [')'] ++ after) := by
  rw [← Written.listOpening?_append hblanks, Written.text]
  simp

theorem arrayOpen_list {gap inside after : List Char} (hblanks : Blanks gap)
    (htail : tail? src start = some (Written.text (.list gap inside) ++ after)) :
    arrayOpen src start = some (some (Written.listOpened start gap)) := by
  rw [arrayOpen_eq htail, listOpening?_text hblanks]
  rfl

theorem arg_opened {gap inside : List Char} (hblanks : Blanks gap)
    (h : slice? src start stop = some (Written.text (.list gap inside))) :
    arg src arguments .list ⟨start, stop⟩ = Arg.list <$> arguments
      ⟨Written.listOpened start gap + 1, Written.listOpened start gap + 1 + width inside⟩ := by
  obtain ⟨⟨after, htail⟩, -⟩ := tail?_of_slice? h
  obtain ⟨hsub, -⟩ := slice?_list h
  simp only [arg, h, lift_some_bind, arrayOpen_list hblanks htail, hsub]

theorem arg_list {gap inside : List Char} (hblanks : Blanks gap)
    (h : slice? src start (start + width (Written.text (.list gap inside))) =
      some (Written.text (.list gap inside))) (ha : Answers src arguments argumentsAt) :
    arg src arguments .list (Token.span ⟨start, .list gap inside⟩) =
      answer (Arg.readAt src argumentsAt ⟨start, .list gap inside⟩) := by
  obtain ⟨⟨after, htail⟩, -⟩ := tail?_of_slice? h
  obtain ⟨hsub, hinside⟩ := slice?_list h
  have hstop := (Option.ite_none_right_eq_some.1 hsub).2
  have hopened : arg src arguments .list (Token.span ⟨start, .list gap inside⟩) = _ :=
    arg_opened hblanks h
  rw [hopened, ha ⟨_, _⟩ inside hinside (Nat.succ_pos _), answer_map]
  simp only [Arg.readAt, dropBytes_of_tail? htail, listOpening?_text hblanks, Token.span,
    Span.covering, Token.text, Option.some.inj hstop]

/-- **An argument is read** where it stands in the tag. -/
theorem arg_eq {t : Token} (h : slice? src t.span.start t.span.stop = some t.text)
    {c : Char} {rest after : List Char} (hw : Written.scan pos c rest = .ok (t.written, after))
    (ha : Answers src arguments argumentsAt) :
    arg src arguments t.written.kind t.span = answer (Arg.readAt src argumentsAt t) := by
  obtain ⟨start, w⟩ := t
  rcases Written.scan_cases hw with ⟨body, rfl, hm, -⟩ | ⟨n, rfl, hn⟩ |
    ⟨gap, inner, inside, rfl, hlist, -⟩ | ⟨before, after', rfl, -⟩
  · obtain ⟨hsub, hbody⟩ := slice?_quoted hm body
    rw [arg, h, lift_some_bind]
    show (liftM (sub? (width (c :: body ++ [c])) 1) >>= _ : Guarded Arg) = _
    rw [hsub, lift_some_bind]
    show (liftM (slice? (c :: body ++ [c]) 1 (1 + width body)) >>= _ : Guarded Arg) = _
    rw [hbody]
    rfl
  · have hproper := Numeral.proper_of_scan? hn
    rw [arg, h, lift_some_bind]
    simp only [Token.text, Written.text, Written.kind, Arg.readAt, Arg.read]
    cases hdecimal : n.isDecimal with
    | true =>
      simp only [if_true, Numeral.ofText?_text hproper]
      rfl
    | false =>
      simp only [Bool.false_eq_true, if_false, int64?_text hproper hdecimal]
      cases n.toInt64? <;> rfl
  · exact arg_list (Written.blanks_of_listOpening? hlist) h ha
  · rw [arg, h, lift_some_bind]
    show Arg.path <$> path src arguments _ = _
    rw [path_eq h ha, answer_map]
    rfl

end

theorem traverse_map {α β : Type} (f : α → Except Fault β) (move : α → α) (items : List α)
    (fault : Option Fault) : Scan.traverse (fun a => f (move a)) ⟨items, fault⟩ =
      Scan.traverse f ⟨items.map move, fault⟩ := by
  simp only [Scan.traverse, List.mapM_map, Function.comp_def]

theorem slice?_moved {t : Token} (h : slice? src start stop = some text)
    (ht : t ∈ (Token.scan 0 text).items) :
    (rawArg t).span.shift start = (t.moved start).span ∧
      slice? src (t.moved start).span.start (t.moved start).span.stop =
        some (t.moved start).text := by
  have htail : tail? text 0 = some text := by rw [tail?]
  have hspan : (rawArg t).span.shift start = (t.moved start).span := Span.shift_covering ..
  have hslice : slice? src (t.span.shift start).start (t.span.shift start).stop =
      some (t.moved start).text := slice?_slice? h (slice?_of_scan htail t ht)
  refine ⟨hspan, ?_⟩
  rw [← hspan]
  exact hslice

/-- **Argument lists are read** in every slice of the tag that something stands in front of,
with any number of levels. -/
theorem argsAt_eq (src : List Char) : ∀ levels,
    Answers src (argsAt src levels) (Arg.readListAt src levels)
  | 0 => by
    rintro ⟨start, stop⟩ text h hpos
    obtain ⟨opened, rfl⟩ := Nat.exists_eq_add_one.2 hpos
    rw [argsAt, sub?_add, lift_some_bind]
    rfl
  | levels + 1 => by
    rintro ⟨start, stop⟩ text h _
    have htail : tail? text 0 = some text := by rw [tail?]
    have hread : ∀ t ∈ (Token.scan 0 text).items,
        arg src (argsAt src levels) (rawArg t).kind ((rawArg t).span.shift start) =
          answer (Arg.readAt src (Arg.readListAt src levels) (t.moved start)) := by
      intro t ht
      obtain ⟨-, c, rest, after, hw⟩ := Token.stands_of_scan _ _ t ht
      obtain ⟨hspan, hslice⟩ := slice?_moved h ht
      rw [hspan]
      exact arg_eq hslice hw (argsAt_eq src levels)
    have hlist : Splitter.traverse (Fault.shift start)
        (fun raw => arg src (argsAt src levels) raw.kind (raw.span.shift start)) ⟨text, 0, false⟩ =
          answer (Scan.traverse (fun t => Arg.readAt src _ (Token.moved start t)) _) :=
      (Splitter.gives_scan htail).traverse_eq hread
    rw [traverse_map] at hlist
    show (liftM (slice? src start stop) >>= _ : Guarded (List Arg)) =
      answer (Scan.traverse _ ((Token.scan 0 (Span.slice src ⟨start, stop⟩)).moved _ start))
    rw [h, lift_some_bind, slice_of_slice? h]
    exact hlist

/-- **Reading by places** gives an answer for every tag, and it is the one that `Path.parse`
gives. -/
theorem parse_eq (tag : String) : parse tag = some (Path.parse tag) := by
  have htag : slice? tag.toList 0 (0 + width tag.toList) = some tag.toList := by
    refine @slice?_of_tail? _ _ [] 0 ?_
    rw [tail?, List.append_nil]
  rw [Nat.zero_add] at htag
  rw [parse, path_eq htag (argsAt_eq tag.toList Path.maxNesting), ← Path.parseAt_whole]
  rfl

/-- **No slice is missing.** For every text, splitting it and reading it as a tag by places
give answers, and they are the ones of `splitArguments` and `Path.parse`: every slice that is
taken on the way exists, and no difference is negative. A splitter of the text gives an answer
in every state that it comes to, and each argument that it gives takes it further. Up to its
end it gives the arguments of the text, and then the fault if there is one. They have at least
one byte each, are slices of the text, and each ends before the next one begins. -/
theorem reads_in_bounds (text : String) :
    split text = some (splitArguments text) ∧
      parse text = some (Path.parse text) ∧
      (∀ s, Splitter.Reached text.toList s →
        ∃ item s', s.next = some (item, s') ∧ s.Advances s' item) ∧
      Splitter.run ⟨text.toList, 0, false⟩ =
        some ((scanArguments text).items.map (fun t => .ok (rawArg t)) ++
          (scanArguments text).fault.toList.map .error) ∧
      (∀ t ∈ (scanArguments text).items, t.span.start < t.span.stop ∧
        slice? text.toList t.span.start t.span.stop = some t.text) ∧
      (scanArguments text).items.Pairwise fun t u => t.span.stop ≤ u.span.start := by
  have htail : tail? text.toList 0 = some text.toList := by rw [tail?]
  have hgives := Splitter.gives_scan htail
  obtain ⟨hsizes, hordered⟩ := hgives.ordered
  exact ⟨split_eq text, parse_eq text, fun _ hs => hs.advances, hgives.run_eq,
    fun t ht => ⟨(hsizes t ht).2, slice?_of_scan htail t ht⟩, hordered⟩

/-- Characters of more than one byte: white space, names and texts, and a fault behind them. -/
theorem reads_in_bounds_wide :
    split "\u3000é(')')\u3000,array\u2003(ß)" = some (.ok ["é(')')", "array\u2003(ß)"]) ∧
      parse "\u3000é.ß" = some (.ok (.segments [.bare "é", .bare "ß"])) ∧
      (∃ item s', Splitter.next ⟨"\u3000é , ß(".toList, 0, false⟩ = some (item, s') ∧
        Splitter.Advances ⟨"\u3000é , ß(".toList, 0, false⟩ s' item) ∧
      Splitter.run ⟨"\u3000é , ß(".toList, 0, false⟩ =
        some [.ok ⟨.reference, ⟨3, 5⟩⟩, .error ⟨.unclosedParen, ⟨10, 11⟩⟩] := by
  have hsplit : splitArguments "\u3000é(')')\u3000,array\u2003(ß)" =
      .ok ["é(')')", "array\u2003(ß)"] := by decide +kernel
  have hscan : scanArguments "\u3000é , ß(" =
      ⟨[⟨3, .reference ['é']⟩], some ⟨.unclosedParen, ⟨10, 11⟩⟩⟩ := by
    with_unfolding_all rfl
  have hparse : Path.parse "\u3000é.ß" = .ok (.segments [.bare "é", .bare "ß"]) := by
    with_unfolding_all rfl
  obtain ⟨hsplits, -⟩ := reads_in_bounds "\u3000é(')')\u3000,array\u2003(ß)"
  obtain ⟨-, hparses, -⟩ := reads_in_bounds "\u3000é.ß"
  obtain ⟨-, -, hsteps, hrun, -⟩ := reads_in_bounds "\u3000é , ß("
  rw [hscan] at hrun
  exact ⟨hsplits.trans (congrArg some hsplit), hparses.trans (congrArg some hparse),
    hsteps _ .start, hrun⟩

end InBytes
end TagScope
