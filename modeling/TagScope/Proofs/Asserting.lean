/-
# Checks that always pass

The reader that goes by places makes three checks that look as if they could fail: that the
group behind a name ends before the path does, that the parenthesis of a list is found where
the list has been found before, and that an argument which is to be a path is not blank. Each
has a fault of its own.

Here is the same reader with assertions in their place (`Asserting.parse`): where a check would
fail, it gives nothing at all. It gives an answer for every tag, and the same one
(`Asserting.parse_eq`), so no check ever fails. For the first of them, everything in the rest of
a path is closed, or nothing but white space follows it (`Complete`), and that stays so behind
every segment (`Complete.behind_group`). For the other two, an argument has been cut out of the
text by a scanner that has seen how it begins.

All of it comes from what `scanGroup` finds: a group of closed text, which ends there whatever
follows (`scanGroup_eq_ok_iff`), and in which no other scanner misses a partner.

Key definitions: `surely`, `Asserting.segment`, `Asserting.path`, `Asserting.arg`,
`Asserting.parse`, `Complete`, `AgreeOnGroups`.
Key theorems: `scanGroup_eq_ok_iff`, `Complete.behind_group`, `Asserting.steps_eq`,
`Asserting.argsAt_eq`, `Asserting.parse_eq`, `scanners_agree`.
-/
import TagScope.Proofs.InBounds
import TagScope.Proofs.Pairing

namespace TagScope
namespace InBytes

variable {src text mid : List Char} {pos start stop opened closed : Nat}

/-! ### The reader with assertions -/

/-- Goes on if `p` holds, and gives nothing otherwise, not even a fault. -/
def surely (p : Prop) [Decidable p] : Guarded Unit :=
  ExceptT.mk (if p then some (.ok ()) else none)

@[simp] theorem surely_bind {α : Type} {p : Prop} [Decidable p] (h : p) (f : Unit → Guarded α) :
    (surely p >>= f) = f () := by
  unfold surely
  rw [if_pos h]
  rfl

namespace Asserting

/-- Asserts that the group behind the name at `pos`, if one is found, ends before `stop`. -/
def groupEnds (src : List Char) (stop pos : Nat) : Guarded Unit := do
  let nameEnd ← identEnd src stop pos
  let c ← charAt src nameEnd stop
  if pos < nameEnd ∧ c = some '(' then
    let closed ← scanGroup src nameEnd
    surely (closed < stop)
  else pure ()

/-- The segment that begins at `pos`, as it is read with an assertion in front. -/
def segment (src : List Char) (arguments : Span → Guarded (List Arg)) (stop : Nat) (first : Bool)
    (pos : Nat) : Guarded (Segment × Nat) := do
  groupEnds src stop pos
  InBytes.segment src arguments stop first pos

theorem lt_of_segment {arguments : Span → Guarded (List Arg)} {first : Bool} {s : Segment}
    {next : Nat} (h : segment src arguments stop first pos = answer (.ok (s, next))) :
    pos < next := by
  obtain ⟨-, -, hs⟩ := bind_eq_ok.1 h
  exact InBytes.lt_of_segment hs

/-- The segments from `pos` on. -/
def steps (src : List Char) (arguments : Span → Guarded (List Arg)) (stop : Nat) (first : Bool)
    (pos : Nat) : Guarded (List Segment) :=
  match _h : segment src arguments stop first pos with
  | none => none
  | some (.error fault) => throw fault
  | some (.ok (s, next)) =>
    match _hc : charAt src next stop with
    | none => none
    | some none => pure [s]
    | some (some c) =>
      if c = '.' then (s :: ·) <$> steps src arguments stop false (next + 1)
      else throw (unexpected (some c) next)
termination_by stop - pos
decreasing_by
  have hpos := lt_of_segment _h
  have hnext := (exists_of_charAt _hc).1
  omega

/-- The path in a range. One that is `nested` in an argument list is not blank. -/
def path (src : List Char) (arguments : Span → Guarded (List Arg)) (nested : Bool)
    (range : Span) : Guarded Path := do
  let text ← slice? src range.start range.stop
  let lead ← sub? (width text) (width (text.dropWhile isBlank))
  let start := range.start + lead
  let stop := range.start + width (Written.trimEnd text)
  if stop ≤ start then
    surely (nested = false)
    throw ⟨.emptyPath, range⟩
  else
    let core ← slice? src start stop
    if core = ['.'] then pure .current
    else .segments <$> steps src arguments stop true start

/-- The argument of a kind that a span covers. The parenthesis of a list is found. -/
def arg (src : List Char) (arguments : Span → Guarded (List Arg)) (kind : ArgumentKind)
    (span : Span) : Guarded Arg :=
  match kind with
  | .list => do
    surely (arrayOpen src span.start ≠ some none)
    InBytes.arg src arguments .list span
  | .reference => .path <$> path src arguments true span
  | .text | .decimal | .integer => InBytes.arg src arguments kind span

/-- The arguments in a range. -/
def argsAt (src : List Char) : (levels : Nat) → Span → Guarded (List Arg)
  | 0, range => InBytes.argsAt src 0 range
  | levels + 1, range => do
    let text ← slice? src range.start range.stop
    Splitter.traverse (Fault.shift range.start)
      (fun raw => arg src (argsAt src levels) raw.kind (raw.span.shift range.start))
      ⟨text, 0, false⟩

/-- Reads a tag. -/
def parse (tag : String) : Option (Except SyntaxError Path) :=
  (path tag.toList (argsAt tag.toList Path.maxNesting) false ⟨0, width tag.toList⟩).run.map
    (Except.mapError (Fault.within tag))

end Asserting

/-! ### Groups by places -/

theorem tail?_of_hasGroup {inside : List Char} (h : HasGroup src opened closed inside) :
    ∃ after, tail? src opened = some ('(' :: (inside ++ ')' :: after)) := by
  obtain ⟨before, after, rfl, rfl, -, -⟩ := h
  refine ⟨after, ?_⟩
  rw [List.append_assoc]
  exact tail?_width before _

/-- **The end of a group is found** exactly where the group ends. -/
theorem scanGroup_eq_ok_iff {rest : List Char} (h : tail? src opened = some ('(' :: rest)) :
    scanGroup src opened = answer (.ok closed) ↔ ∃ inside, HasGroup src opened closed inside := by
  constructor
  · intro hscan
    obtain ⟨inside, after, hclose, hclosed, -⟩ := of_scanGroup_eq_ok h hscan
    obtain ⟨before, hsrc, hopened⟩ := tail?_eq_some_iff.1 h
    refine ⟨inside, before, after, ?_, hopened, by rw [hclosed, hopened],
      (Nesting.closes_inside hclose).1⟩
    rw [hsrc, Nesting.eq_of_close hclose]
    simp
  · rintro ⟨inside, hgroup⟩
    obtain ⟨after, htail⟩ := tail?_of_hasGroup hgroup
    obtain ⟨before, -, -, hopened, hclosed, hcloses⟩ := hgroup
    rw [scanGroup_eq htail, Nesting.close_of_closes hcloses, hclosed, hopened]
    rfl

/-- **Nothing behind a group** has a part in it. -/
theorem hasGroup_of_agree {other inside : List Char} (h : HasGroup src opened closed inside)
    (hagree : head? other (closed + 1) = head? src (closed + 1)) :
    HasGroup other opened closed inside := by
  obtain ⟨before, after, hsrc, hopened, hclosed, hcloses⟩ := h
  have hwidth : closed + 1 = width (before ++ '(' :: inside ++ [')']) := by
    rw [List.append_assoc, width_append, width_group, hclosed]
    omega
  have hsplit : src = before ++ '(' :: inside ++ [')'] ++ after := by rw [hsrc]; simp
  rw [hsplit, hwidth, head?_width] at hagree
  obtain ⟨after', hother, -⟩ := exists_of_head? hagree
  exact ⟨before, after', by rw [hother]; simp, hopened, hclosed, hcloses⟩

theorem slice?_of_hasGroup {inside : List Char} (h : HasGroup src opened closed inside) :
    slice? src (opened + 1) closed = some inside := by
  obtain ⟨after, htail⟩ := tail?_of_hasGroup h
  obtain ⟨_, _, -, rfl, rfl, -⟩ := h
  exact slice?_of_tail? (tail?_next htail)

theorem hasGroup_of_list {gap inside : List Char}
    (h : slice? src start stop = some (Written.text (.list gap inside)))
    (hcloses : Pass.closes {} inside = true) : HasGroup src (Written.listOpened start gap)
      (Written.listOpened start gap + 1 + width inside) inside := by
  obtain ⟨before, after, rfl, rfl, -⟩ := slice?_eq_some_iff.1 h
  have hopened : Written.listOpened (width before) gap =
      width (before ++ (Written.listWord ++ gap)) := by
    rw [Written.listOpened, width_append, width_append, Nat.add_assoc]
  refine ⟨before ++ (Written.listWord ++ gap), after, by simp [Written.text], hopened, ?_, hcloses⟩
  rw [hopened]

/-! ### Ranges in which groups end -/

/-- A range of the text in which everything is closed, or behind which nothing but white space
stands. -/
def Complete (src : List Char) (start stop : Nat) (mid : List Char) : Prop :=
  ∃ before rest, src = before ++ mid ++ rest ∧ start = width before ∧
    stop = width before + width mid ∧ (Pass.closes {} mid = true ∨ Blanks rest)

namespace Complete

theorem slice? (h : Complete src start stop mid) : slice? src start stop = some mid := by
  obtain ⟨before, rest, hsrc, hstart, hstop, -⟩ := h
  exact slice?_eq_some_iff.2 ⟨before, rest, hsrc, hstart, hstop⟩

/-- **Behind a closed beginning** the rest of the range is one, too. -/
theorem right {rest : List Char} (h : Complete src start stop (text ++ rest))
    (hskips : Pass.Skips {} {} text) : Complete src (start + width text) stop rest := by
  obtain ⟨before, after, rfl, rfl, rfl, hends⟩ := h
  refine ⟨before ++ text, after, by simp, (width_append ..).symm, ?_, hends.imp_left fun hc => ?_⟩
  · rw [width_append, width_append, Nat.add_assoc]
  · rwa [(hskips rest).1] at hc

/-- **White space at the end** of the range can be left out of it. -/
theorem left {gap : List Char} (h : Complete src start stop (mid ++ gap)) (hgap : Blanks gap) :
    Complete src start (start + width mid) mid := by
  obtain ⟨before, rest, rfl, rfl, rfl, hends⟩ := h
  refine ⟨before, gap ++ rest, by simp, rfl, rfl, hends.imp (fun hc => ?_) fun hrest => ?_⟩
  · exact Pass.Marked.closes_of_append hgap (by simp [Pass.Marked]) hc
  · exact fun c hc => (List.mem_append.1 hc).elim (hgap c) (hrest c)

theorem of_slice? (h : InBytes.slice? src start stop = some mid)
    (hcloses : Pass.closes {} mid = true) : Complete src start stop mid := by
  obtain ⟨before, after, hsrc, hstart, hstop⟩ := slice?_eq_some_iff.1 h
  exact ⟨before, after, hsrc, hstart, hstop, Or.inl hcloses⟩

theorem le (h : Complete src start stop mid) : start ≤ stop := by
  obtain ⟨_, _, -, rfl, rfl, -⟩ := h
  exact Nat.le_add_right ..

/-- **A group behind a name in the range** is in the range, though it is looked for in the whole
text. -/
theorem exists_group {name inner : List Char}
    (h : Complete src start stop (name ++ '(' :: inner)) (hn : IsName name)
    (hscan : scanGroup src (start + width name) = answer (.ok closed)) :
    ∃ inside rest, inner = inside ++ ')' :: rest ∧
      HasGroup src (start + width name) closed inside := by
  obtain ⟨before, after, hsrc, rfl, rfl, hends⟩ := h
  have htail : tail? src (width before + width name) = some ('(' :: (inner ++ after)) := by
    rw [← width_append]
    refine tail?_eq_some_iff.2 ⟨before ++ name, ?_, rfl⟩
    rw [hsrc]
    simp
  obtain ⟨inside, more, hclose, rfl, -⟩ := of_scanGroup_eq_ok htail hscan
  have hinner : Pass.closes {} ('(' :: inner) = true ∨ Blanks after := by
    refine hends.imp_left fun hcloses => ?_
    rwa [(hn.skips _).1] at hcloses
  obtain ⟨rest, rfl⟩ := Nesting.exists_of_close_append hclose hinner
  refine ⟨inside, rest, rfl, before ++ name, rest ++ after, ?_, (width_append ..).symm, ?_,
    (Nesting.closes_inside hclose).1⟩
  · rw [hsrc]
    simp
  · rw [width_append]

/-- **Behind a group** the rest of the range is one, too. -/
theorem behind_group {name inner : List Char}
    (h : Complete src start stop (name ++ '(' :: inner)) (hn : IsName name)
    (hscan : scanGroup src (start + width name) = answer (.ok closed)) :
    (∃ inside, HasGroup src (start + width name) closed inside) ∧
      ∃ rest, Complete src (closed + 1) stop rest := by
  obtain ⟨inside, rest, rfl, hgroup⟩ := h.exists_group hn hscan
  refine ⟨⟨inside, hgroup⟩, rest, ?_⟩
  have hsplit : name ++ '(' :: (inside ++ ')' :: rest) =
      name ++ ('(' :: inside ++ [')']) ++ rest := by simp
  have hend : start + width (name ++ ('(' :: inside ++ [')'])) = closed + 1 := by
    obtain ⟨_, _, -, hopened, rfl, -⟩ := hgroup
    rw [width_append, width_group, ← hopened]
    omega
  rw [hsplit] at h
  rw [← hend]
  apply h.right
  exact hn.skips.trans hgroup.skips

end Complete

/-! ### Paths -/

/-- Two readers of argument lists give the same for every group of the text. -/
def AgreeOnGroups (src : List Char) (arguments arguments' : Span → Guarded (List Arg)) : Prop :=
  ∀ opened closed inside, HasGroup src opened closed inside →
    arguments ⟨opened + 1, closed⟩ = arguments' ⟨opened + 1, closed⟩

namespace Asserting

section

variable {arguments arguments' : Span → Guarded (List Arg)} {first : Bool} {range : Span}

/-- Where no name stands, or none with a parenthesis, nothing is asserted. -/
theorem groupEnds_of_ne (h : slice? src pos stop = some mid)
    (hne : mid.takeWhile isNameChar = [] ∨ (mid.dropWhile isNameChar).head? ≠ some '(') :
    groupEnds src stop pos = answer (.ok ()) := by
  have hsplit : mid = mid.takeWhile isNameChar ++ mid.dropWhile isNameChar :=
    List.takeWhile_append_dropWhile.symm
  have hrest := h
  rw [hsplit] at hrest
  rw [groupEnds, identEnd_eq h, lift_some_bind, charAt_eq (slice?_right hrest), lift_some_bind,
    if_neg]
  · rfl
  · rintro ⟨hlt, hparen⟩
    rcases hne with hnil | hother
    · rw [hnil, width_nil] at hlt
      omega
    · exact hother hparen

theorem groupEnds_call {name inner : List Char}
    (h : slice? src pos stop = some (name ++ '(' :: inner)) (hn : IsName name) :
    groupEnds src stop pos =
      scanGroup src (pos + width name) >>= fun closed => surely (closed < stop) := by
  have hstop : Stops isNameChar ('(' :: inner) := stops_cons.2 (by decide)
  have hsize := width_pos hn.nonempty
  rw [groupEnds, identEnd_eq h, lift_some_bind, takeWhile_append_stops hn.chars hstop,
    charAt_eq (slice?_right h), lift_some_bind, if_pos ⟨by omega, List.head?_cons⟩]

theorem segment_eq (h : Complete src pos stop mid) (ha : AgreeOnGroups src arguments arguments') :
    segment src arguments stop first pos = InBytes.segment src arguments' stop first pos := by
  have hslice := h.slice?
  unfold segment
  rcases RawSegment.shape mid with hstops | ⟨name, rest, rfl, hn, hr⟩ | ⟨name, inner, rfl, hn⟩
  · rw [groupEnds_of_ne hslice (Or.inl (takeWhile_stops hstops)), answer_ok_bind,
      segment_nameless hslice hstops, segment_nameless hslice hstops]
  · have hstop : Stops isNameChar rest := fun c hc => (hr c hc).1
    have hparen : ((name ++ rest).dropWhile isNameChar).head? ≠ some '(' := by
      rw [dropWhile_append_stops hn.chars hstop]
      exact fun hhead => (hr '(' hhead).2 rfl
    rw [groupEnds_of_ne hslice (Or.inr hparen), answer_ok_bind, segment_bare hslice hn hr,
      segment_bare hslice hn hr]
  · rw [groupEnds_call hslice hn, segment_group hslice hn, segment_group hslice hn]
    rcases guarded_cases (scanGroup src (pos + width name)) with
      hscan | ⟨fault, hscan⟩ | ⟨closed, hscan⟩
    · rw [hscan]
      rfl
    · rw [hscan]
      rfl
    · obtain ⟨⟨inside, hgroup⟩, rest, hrest⟩ := h.behind_group hn hscan
      have hlt : closed < stop := hrest.le
      rw [hscan, answer_ok_bind, answer_ok_bind, surely_bind hlt, ha _ _ _ hgroup,
        answer_ok_bind]

theorem complete_of_segment {s : Segment} {next : Nat} (h : Complete src pos stop mid)
    (hs : InBytes.segment src arguments stop first pos = answer (.ok (s, next))) :
    ∃ rest, Complete src next stop rest := by
  have hslice := h.slice?
  rcases RawSegment.shape mid with hstops | ⟨name, rest, rfl, hn, hr⟩ | ⟨name, inner, rfl, hn⟩
  · rw [segment_nameless hslice hstops] at hs
    cases hs
  · rw [segment_bare hslice hn hr] at hs
    obtain ⟨-, rfl⟩ := Prod.mk.inj (Except.ok.inj (Option.some.inj hs))
    exact ⟨rest, h.right hn.skips⟩
  · rw [segment_group hslice hn] at hs
    obtain ⟨closed, hscan, hs⟩ := bind_eq_ok.1 hs
    obtain ⟨-, rest, hrest⟩ := h.behind_group hn hscan
    rw [if_neg (Nat.not_le_of_lt hrest.le)] at hs
    obtain ⟨args, -, hs⟩ := bind_eq_ok.1 hs
    obtain ⟨-, rfl⟩ := Prod.mk.inj (Except.ok.inj (Option.some.inj hs))
    exact ⟨rest, hrest⟩

/-- **The assertions of a path hold**, segment by segment. -/
theorem steps_eq (h : Complete src pos stop mid) (ha : AgreeOnGroups src arguments arguments') :
    steps src arguments stop first pos = InBytes.steps src arguments' stop first pos := by
  -- behind each segment and its dot the range is complete again, so the next assertion holds
  fun_induction steps src arguments stop first pos generalizing mid with
  | case1 first pos hs =>
    rw [steps_def, ← segment_eq h ha, hs]
  | case2 first pos fault hs =>
    rw [steps_def, ← segment_eq h ha, hs]
  | case3 first pos s next hs hc =>
    rw [steps_def, ← segment_eq h ha, hs]
    simp only [hc]
  | case4 first pos s next hs hc =>
    rw [steps_def, ← segment_eq h ha, hs]
    simp only [hc]
  | case5 first pos s next hs hc ih =>
    have hplain := (segment_eq h ha).symm.trans hs
    obtain ⟨rest, hrest⟩ := complete_of_segment h hplain
    have hhead := Option.some.inj ((charAt_eq hrest.slice?).symm.trans hc)
    obtain ⟨more, rfl⟩ := List.head?_eq_some_iff.1 hhead
    have hdot : Pass.Skips {} {} ['.'] := .char fun _ => by decide
    rw [steps_def, hplain, ih (@Complete.right _ ['.'] _ _ more hrest hdot)]
    simp only [hc, if_true]
  | case6 first pos s next hs c hc hdot =>
    rw [steps_def, ← segment_eq h ha, hs]
    simp only [hc, if_neg hdot]

/-- **The assertions of a path hold**, also that one in a list is not blank. -/
theorem path_eq {nested : Bool} (h : Complete src range.start range.stop text)
    (ha : AgreeOnGroups src arguments arguments') (hnested : nested = true → trim text ≠ []) :
    path src arguments nested range = InBytes.path src arguments' range := by
  have hslice := h.slice?
  rw [path, InBytes.path, hslice, lift_some_bind, lift_some_bind, sub?_dropWhile,
    lift_some_bind, lift_some_bind]
  by_cases hcore : trim text = []
  · have hfalse : nested = false := by
      by_contra htrue
      exact hnested (by simpa using htrue) hcore
    rw [trimEnd_of_trim_eq_nil hcore, width_nil, Nat.add_zero, if_pos (Nat.le_add_right ..),
      if_pos (Nat.le_add_right ..), surely_bind hfalse]
  · obtain ⟨hend, htext⟩ := trim_append text hcore
    have hsize := width_pos hcore
    rw [htext, List.append_assoc] at h
    have hcomplete := (h.right (blanks_takeWhile text).skips).left
      (Written.blanks_blankEnd (text.dropWhile isBlank))
    rw [hend, width_append, ← Nat.add_assoc, if_neg (by omega), if_neg (by omega),
      hcomplete.slice?, lift_some_bind, lift_some_bind, steps_eq hcomplete ha]

theorem arg_list {gap inside : List Char} (hblanks : Blanks gap)
    (hcloses : Pass.closes {} inside = true)
    (h : slice? src start stop = some (Written.text (.list gap inside)))
    (ha : AgreeOnGroups src arguments arguments') :
    arg src arguments .list ⟨start, stop⟩ = InBytes.arg src arguments' .list ⟨start, stop⟩ := by
  obtain ⟨⟨after, htail⟩, -⟩ := tail?_of_slice? h
  have hfound : arrayOpen src start ≠ some none := by
    rw [arrayOpen_list hblanks htail]
    simp
  show (surely (arrayOpen src start ≠ some none) >>= fun _ =>
    InBytes.arg src arguments .list ⟨start, stop⟩) = _
  rw [surely_bind hfound, arg_opened hblanks h, arg_opened hblanks h,
    ha _ _ _ (hasGroup_of_list h hcloses)]

theorem arg_reference {name : List Char} (hchecked : (Written.reference name).Checked)
    (h : slice? src start stop = some name) (ha : AgreeOnGroups src arguments arguments') :
    arg src arguments .reference ⟨start, stop⟩ =
      InBytes.arg src arguments' .reference ⟨start, stop⟩ := by
  obtain ⟨hcloses, hstops, hne⟩ := hchecked
  have htrim : trim name ≠ [] := by
    obtain ⟨c, more, rfl⟩ := List.exists_cons_of_ne_nil hne
    obtain ⟨more', hmore⟩ := Written.trimEnd_eq_cons (stops_cons.1 hstops) more
    rw [trim, dropWhile_stops hstops, hmore]
    simp
  have hpath := @path_eq _ _ _ _ ⟨start, stop⟩ true (Complete.of_slice? h hcloses) ha fun _ => htrim
  rw [arg, InBytes.arg, h, lift_some_bind, hpath]

/-- **The assertions of an argument hold**, since a scanner has found it. -/
theorem arg_eq {t : Token} (h : slice? src t.span.start t.span.stop = some t.text)
    {c : Char} {rest after : List Char}
    (hw : Written.scan pos c rest = .ok (t.written, after))
    (ha : AgreeOnGroups src arguments arguments') :
    arg src arguments t.written.kind t.span =
      InBytes.arg src arguments' t.written.kind t.span := by
  obtain ⟨start, w⟩ := t
  cases w with
  | quoted mark body => rfl
  | number n =>
    simp only [Written.kind]
    cases n.isDecimal <;> rfl
  | list gap inside =>
    exact arg_list (Written.blanks_of_scan hw) (Written.checked_of_scan hw) h ha
  | reference name => exact arg_reference (Written.checked_of_scan hw) h ha

end

/-! ### Lists and tags -/

/-- **The assertions in an argument list hold**, with any number of levels. -/
theorem argsAt_eq (src : List Char) : ∀ levels,
    AgreeOnGroups src (argsAt src levels) (InBytes.argsAt src levels)
  | 0 => fun _ _ _ _ => rfl
  | levels + 1 => by
    intro opened closed inside hgroup
    have hslice := slice?_of_hasGroup hgroup
    have htail : tail? inside 0 = some inside := by rw [tail?]
    have hread : ∀ t ∈ (Token.scan 0 inside).items,
        arg src (argsAt src levels) (rawArg t).kind ((rawArg t).span.shift (opened + 1)) =
          InBytes.arg src (InBytes.argsAt src levels) (rawArg t).kind
            ((rawArg t).span.shift (opened + 1)) := by
      intro t ht
      obtain ⟨-, c, rest, after, hw⟩ := Token.stands_of_scan _ _ t ht
      obtain ⟨hspan, hmoved⟩ := slice?_moved hslice ht
      rw [hspan]
      exact arg_eq hmoved hw (argsAt_eq src levels)
    rw [argsAt, InBytes.argsAt, hslice, lift_some_bind, lift_some_bind]
    exact (Splitter.gives_scan htail).traverse_congr hread

/-- **No assertion fails**: the reader with assertions gives an answer for every tag, and it is
the one that `Path.parse` gives. -/
theorem parse_eq (tag : String) : parse tag = some (Path.parse tag) := by
  have hcomplete : Complete tag.toList 0 (width tag.toList) tag.toList :=
    ⟨[], [], by simp, rfl, (Nat.zero_add _).symm, Or.inr (by simp [Blanks])⟩
  have hpath := @path_eq _ _ _ _ ⟨0, width tag.toList⟩ false hcomplete
    (argsAt_eq tag.toList Path.maxNesting) (by simp)
  rw [parse, hpath, ← InBytes.parse_eq]
  rfl

end Asserting

/-! ### Where a partner can be missing -/

/-- **A splitter of a closed text** misses no partner. -/
theorem Splitter.paired_of_closes {inside : List Char} (hcloses : Pass.closes {} inside = true) :
    ∃ given, run ⟨inside, 0, false⟩ = some given ∧
      ∀ fault, .error fault ∈ given → fault.cause.isUnpaired = false := by
  have htail : tail? inside 0 = some inside := by rw [tail?]
  refine ⟨_, (gives_scan htail).run_eq, ?_⟩
  intro fault hmem
  apply Token.paired_of_scan 0 inside hcloses
  simpa using hmem

/-- **The arguments in a group are read** as `Arg.readList` reads what it holds. -/
theorem argsAt_of_hasGroup {inside : List Char} (hgroup : HasGroup src opened closed inside)
    (levels : Nat) :
    argsAt src levels ⟨opened + 1, closed⟩ = answer (Arg.readList levels opened inside) := by
  have hanswer := argsAt_eq src levels ⟨opened + 1, closed⟩ inside (slice?_of_hasGroup hgroup)
    (Nat.succ_pos _)
  obtain ⟨before, after, hsrc, rfl, rfl, hcloses⟩ := hgroup
  rw [hanswer, Arg.readListAt_eq src levels before inside after hsrc hcloses]

/-- **Reading the arguments in a group** misses no partner, however many levels are left. -/
theorem paired_of_argsAt {levels : Nat} {inside : List Char} {fault : Fault}
    (hgroup : HasGroup src opened closed inside)
    (h : argsAt src levels ⟨opened + 1, closed⟩ = answer (.error fault)) :
    fault.cause.isUnpaired = false := by
  have hread := Option.some.inj ((argsAt_of_hasGroup hgroup levels).symm.trans h)
  exact Arg.paired_readList levels opened inside fault hgroup.closes hread

/-- **What lacks a partner in a tag** is its own path: the fault is the same whatever the lists
hold. -/
theorem path_of_unpaired {tag : String} {e : SyntaxError} (h : Path.parse tag = .error e)
    (hf : e.cause.isUnpaired = true) (lists : Span → List Arg) :
    path tag.toList (fun range => pure (lists range)) ⟨0, width tag.toList⟩ =
      answer (.error ⟨e.cause, e.span⟩) := by
  obtain ⟨fault, hread, rfl⟩ := Path.parse_eq_error h
  have hwhole : tag.toList = [] ++ tag.toList ++ [] := by simp
  have hslice : slice? tag.toList 0 (width tag.toList) = some tag.toList :=
    slice?_eq_some_iff.2 ⟨[], [], hwhole, rfl, (Nat.zero_add _).symm⟩
  have hanswers : Answers tag.toList (fun range => pure (lists range))
      fun range => .ok (lists range) := fun _ _ _ _ => rfl
  have hplace := @Path.readAt_eq tag.toList [] tag.toList [] (fun range => .ok (lists range))
    (fun opened inside => .ok (lists ⟨opened + 1, opened + 1 + width inside⟩)) hwhole
    (fun _ _ _ _ _ => rfl) (Or.inr rfl)
  rw [width_nil, Nat.zero_add, Path.read_of_unpaired (Arg.paired_readList _)
    (fun _ _ => ⟨_, rfl⟩) hread hf] at hplace
  rw [@path_eq _ _ _ _ ⟨0, width tag.toList⟩ hslice hanswers, hplace]
  rfl

/-- **The scanners agree in a group.** Take a parenthesis in any text for which `scanGroup`
finds an end. One pass over the text closes it there, too; every text with the same bytes up to
this place has the same end; and a splitter of what stands between never says that a partner is
missing, and neither does reading it as an argument list, with any number of levels.

So when the text is read as a tag and the error is that a partner is missing, it is met in the
tag's own path, whatever its lists hold. And no group behind a name ends behind the path, the
parenthesis of each list is found again, and no path in a list is blank: the reader that would
give nothing there gives what `Path.parse` gives. -/
theorem scanners_agree (tag : String) :
    (∀ opened closed rest, tail? tag.toList opened = some ('(' :: rest) →
      scanGroup tag.toList opened = answer (.ok closed) →
      Pass.Pairs tag.toList opened closed ∧
      (∀ other, head? other (closed + 1) = head? tag.toList (closed + 1) →
        scanGroup other opened = answer (.ok closed)) ∧
      ∃ inside given, slice? tag.toList (opened + 1) closed = some inside ∧
        Splitter.run ⟨inside, 0, false⟩ = some given ∧
        (∀ fault, .error fault ∈ given → fault.cause.isUnpaired = false) ∧
        ∀ levels fault, argsAt tag.toList levels ⟨opened + 1, closed⟩ = answer (.error fault) →
          fault.cause.isUnpaired = false) ∧
    (∀ e, Path.parse tag = .error e → e.cause.isUnpaired = true → ∀ lists : Span → List Arg,
      path tag.toList (fun range => pure (lists range)) ⟨0, width tag.toList⟩ =
        answer (.error ⟨e.cause, e.span⟩)) ∧
    Asserting.parse tag = some (Path.parse tag) := by
  refine ⟨?_, ?_, Asserting.parse_eq tag⟩
  · intro opened closed rest htail hscan
    obtain ⟨inside, hgroup⟩ := (scanGroup_eq_ok_iff htail).1 hscan
    refine ⟨hgroup.pairs, ?_, ?_⟩
    · intro other hagree
      have hother := hasGroup_of_agree hgroup hagree
      obtain ⟨after, htail'⟩ := tail?_of_hasGroup hother
      apply (scanGroup_eq_ok_iff htail').2
      exact ⟨inside, hother⟩
    · obtain ⟨given, hrun, hgiven⟩ := Splitter.paired_of_closes hgroup.closes
      refine ⟨inside, given, slice?_of_hasGroup hgroup, hrun, hgiven, ?_⟩
      intro levels fault hargs
      exact paired_of_argsAt hgroup hargs
  · intro e herror hunpaired lists
    exact path_of_unpaired herror hunpaired lists

/-- Behind a parenthesis that closes nothing, a group with a quoted parenthesis in it, which
lacks a comma. -/
theorem scanners_agree_unmatched :
    Pass.Pairs "é)f(1 ')')".toList 4 10 ∧
      scanGroup "é)f(1 ')'))'(".toList 4 = answer (.ok 10) ∧
      Splitter.run ⟨"1 ')'".toList, 0, false⟩ = some [.error ⟨.expectedSeparator, ⟨2, 3⟩⟩] ∧
      argsAt "é)f(1 ')')".toList 1 ⟨5, 10⟩ = answer (.error ⟨.expectedSeparator, ⟨7, 8⟩⟩) ∧
      SyntaxError.Cause.isUnpaired .expectedSeparator = false ∧
      path "é)f(1 ')')".toList (fun _ => pure []) ⟨0, 11⟩ =
        answer (.error ⟨.unmatchedParen, ⟨2, 3⟩⟩) ∧
      Asserting.parse "é)f(1 ')')" =
        some (.error ⟨.unmatchedParen, ⟨2, 3⟩, "é)f(1 ')')"⟩) := by
  have htail : tail? "é)f(1 ')')".toList 4 = some ('(' :: "1 ')')".toList) := by decide +kernel
  have hgroup : HasGroup "é)f(1 ')')".toList 4 10 "1 ')'".toList :=
    ⟨"é)f".toList, [], by decide +kernel, by decide +kernel, by decide +kernel, by decide +kernel⟩
  have hscan := (scanGroup_eq_ok_iff htail).2 ⟨_, hgroup⟩
  have hread : Arg.readList 1 4 "1 ')'".toList = .error ⟨.expectedSeparator, ⟨7, 8⟩⟩ := by
    with_unfolding_all rfl
  have hitems : Token.scan 0 "1 ')'".toList = ⟨[], some ⟨.expectedSeparator, ⟨2, 3⟩⟩⟩ := by
    with_unfolding_all rfl
  have hparse : Path.parse "é)f(1 ')')" = .error ⟨.unmatchedParen, ⟨2, 3⟩, "é)f(1 ')')"⟩ := by
    with_unfolding_all rfl
  have hargs := argsAt_of_hasGroup hgroup 1
  have hsplit := (@Splitter.gives_scan "1 ')'".toList 0 _ rfl).run_eq
  rw [hread] at hargs
  rw [hitems] at hsplit
  obtain ⟨hgroups, hunpaired, hasserting⟩ := scanners_agree "é)f(1 ')')"
  obtain ⟨hpairs, hagree, _, _, -, -, -, hlists⟩ := hgroups 4 10 _ htail hscan
  rw [hparse] at hasserting
  exact ⟨hpairs, hagree _ (by decide +kernel), hsplit, hargs, hlists 1 _ hargs,
    hunpaired _ hparse rfl _, hasserting⟩

end InBytes
end TagScope
