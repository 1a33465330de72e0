/-
# Tags as arguments

A reference among arguments is read as a tag is, once its text has been cut out
of the list. But a tag stands alone, and an argument must first be told from a
number and from a list by how it begins. So it is not quite true that every tag
can be an argument: of the tags that begin neither like a number nor like
`array(`, those whose first name begins with `-` are tags and no arguments, and
all others are both (`Path.parse_as_argument`).

Key theorems: `Path.TagSpelling.trim`, `Path.read_call`, `Path.parse_as_argument`.
-/
import TagScope.Proofs.Splitting

namespace TagScope

theorem Path.Spelling.head {cs : List Char} {p : Path} (h : Path.Spelling cs p) :
    ∃ c more, cs = c :: more ∧ (c = '.' ∧ p = .current ∨ isNameChar c = true) := by
  cases h with
  | current => exact ⟨'.', [], rfl, Or.inl ⟨rfl, rfl⟩⟩
  | segments hchain =>
    obtain ⟨c, more, rfl, hc⟩ := hchain.head
    exact ⟨c, more, rfl, Or.inr hc⟩

/-- **A tag without the white space around it** is the text of its path. -/
theorem Path.TagSpelling.trim {cs : List Char} {p : Path} (h : Path.TagSpelling cs p) :
    ∃ after, cs = cs.takeWhile isBlank ++ TagScope.trim cs ++ after ∧ Blanks after ∧
      Path.Spelling (TagScope.trim cs) p := by
  obtain ⟨before, core, after, rfl, hbefore, hafter, hcore⟩ := h
  obtain ⟨c, more, hc, hhead⟩ := hcore.head
  have hblank : isBlank c = false := by
    rcases hhead with ⟨rfl, -⟩ | hname
    · decide
    · exact isBlank_of_isNameChar hname
  have hstops : Stops isBlank (core ++ after) := by
    rw [hc]
    exact stops_cons.2 hblank
  have htrim : TagScope.trim (before ++ core ++ after) = core := by
    rw [TagScope.trim, List.append_assoc, dropWhile_append_stops hbefore hstops]
    exact (Written.trimEnd_append hafter hcore.getLast?).1
  have htake : (before ++ core ++ after).takeWhile isBlank = before := by
    rw [List.append_assoc, takeWhile_append_stops hbefore hstops]
  rw [htrim, htake]
  exact ⟨after, rfl, hafter, hcore⟩

/-- A tag that begins neither like a number nor like a list, nor with `-`, can be
an argument. -/
theorem Path.isReference_of_not_startsNumber {cs : List Char} {p : Path}
    (h : Path.Spelling cs p) (hnum : ¬ StartsNumber cs) (hlist : ¬ StartsList cs)
    (hdash : cs.head? ≠ some '-') : p.IsReference := by
  obtain ⟨c, more, rfl, ⟨-, rfl⟩ | hname⟩ := h.head
  · trivial
  · have hdigit : c.isDigit = false := Numeral.stops_of_scan?_eq_none
      (Numeral.scan?_eq_none_iff.2 hnum)
    have hopening : Written.listOpening? (c :: more ++ []) = none := by
      rw [List.append_nil]
      exact Written.listOpening?_eq_none_iff.2 hlist
    have hstarts : Written.startsReference c = true := by
      have hne : c ≠ '-' := by simpa using hdash
      simp only [isNameChar, hne, decide_false, Bool.or_false] at hname
      rw [Written.startsReference, hname, Bool.true_or]
    exact Path.isReference_of_spelling hstarts hdigit hopening h

/-- **A call is read** by reading its argument list. -/
theorem Path.read_call {arguments : Nat → List Char → Except Fault (List Arg)} {name : List Char}
    (hn : IsName name) {inside : List Char} (hb : Balanced true inside) (pos : Nat) :
    Path.read arguments pos (name ++ '(' :: inside ++ [')']) =
      (arguments (pos + width name) inside).map
        fun as => .segments [.call (String.ofList name) as] := by
  obtain ⟨c, more, rfl⟩ := List.exists_cons_of_ne_nil hn.nonempty
  have hc := hn.chars c List.mem_cons_self
  have hblank := isBlank_of_isNameChar hc
  have hdot : c ≠ '.' := ne_of_isNameChar hc (by decide)
  have hone : RawSegment.scanOne pos (c :: more ++ '(' :: inside ++ [')']) =
      .ok (⟨pos, c :: more, some inside⟩, []) := by
    have hclose := Nesting.close_of_balanced hb (pos + width (c :: more)) []
    rw [List.append_assoc]
    show RawSegment.scanOne pos (c :: more ++ '(' :: (inside ++ [')'])) = _
    rw [RawSegment.scanOne_call hn, hclose]
    rfl
  have hstops : Stops isBlank (c :: more ++ '(' :: inside ++ [')']) := stops_cons.2 hblank
  unfold Path.read
  rw [takeWhile_stops hstops, dropWhile_stops hstops]
  simp only [List.cons_append, if_neg hdot, width_nil, Nat.add_zero]
  rw [← List.cons_append, ← List.cons_append, RawSegment.scan_last hone rfl, Scan.traverse_cons,
    Scan.traverse_done]
  simp only [Segment.read, RawSegment.opened]
  cases arguments (pos + width (c :: more)) inside <;> rfl

/-- Where a number begins no argument and the text begins with `-`, nothing does. -/
theorem Written.scan_dash {pos : Nat} {rest : List Char} (h : ¬ StartsNumber ('-' :: rest)) :
    scan pos '-' rest = .error ⟨.unexpectedChar '-', .char pos '-'⟩ := by
  have hlist : listOpening? ('-' :: rest) = none := by
    rw [listOpening?_eq_none_iff]
    rintro ⟨gap, more, -, heq⟩
    exact absurd (List.cons.inj heq).1 (by decide)
  rw [scan, if_neg (by decide), Numeral.scan?_eq_none_iff.2 h]
  simp only [hlist]
  rfl

theorem Blanks.separators {gap : List Char} (h : Blanks gap) : Separators gap := by
  intro c hc
  rw [Token.isSeparator, h c hc, Bool.true_or]

/-- An argument list whose first argument would begin with `-` and is no number. -/
theorem Arg.readList_dash {levels opened : Nat} {gap rest : List Char} (hg : Blanks gap)
    (h : ¬ StartsNumber ('-' :: rest)) :
    readList (levels + 1) opened (gap ++ '-' :: rest) =
      .error ⟨.unexpectedChar '-', .char (opened + 1 + width gap) '-'⟩ := by
  have hseps := hg.separators
  have hstops : Stops Token.isSeparator ('-' :: rest) := stops_cons.2 (by decide)
  have hdrop := dropWhile_append_stops hseps hstops
  have htake := takeWhile_append_stops hseps hstops
  have hscan := @Written.scan_dash (opened + 1 + width gap) rest h
  show (Token.scan (opened + 1) (gap ++ '-' :: rest)).traverse (Arg.read (readList levels)) = _
  rw [Token.scan_failed hdrop (by rw [htake]; exact hscan), Scan.traverse_failed]

namespace Path

theorem toList_call_f (inside : String) :
    ("f(" ++ inside ++ ")").toList = ['f'] ++ '(' :: inside.toList ++ [')'] := by
  simp

theorem isName_f : IsName ['f'] :=
  ⟨by simp, List.all_eq_true.1 (by decide)⟩

theorem parse_call_dash {inside : String} {gap rest : List Char}
    (htext : inside.toList = gap ++ '-' :: rest) (hgap : Blanks gap)
    (hb : Balanced true inside.toList) (h : ¬ StartsNumber ('-' :: rest)) :
    parse ("f(" ++ inside ++ ")") =
      .error ⟨.unexpectedChar '-', .char (2 + width gap) '-', "f(" ++ inside ++ ")"⟩ := by
  have hread : Arg.readList maxNesting 1 inside.toList =
      .error ⟨.unexpectedChar '-', .char (1 + 1 + width gap) '-'⟩ := by
    rw [htext, maxNesting]
    exact Arg.readList_dash hgap h
  have hcall := @read_call (Arg.readList maxNesting) _ isName_f _ hb 0
  rw [parse, toList_call_f, hcall]
  simp only [width_cons, width_nil, Nat.zero_add, Nat.add_zero]
  rw [show 'f'.utf8Size = 1 from rfl, hread]
  rfl

/-- A call of one argument list is read as its text is spelled, where one more
level is allowed. -/
theorem parse_call_spelling {inside : String} {as : List Arg}
    (h : Arg.ListSpelling inside.toList as) (hn : Arg.nestingAll as < maxNesting) :
    parse ("f(" ++ inside ++ ")") = .ok (.segments [.call "f" as]) := by
  have hwhole : TagSpelling ("f(" ++ inside ++ ")").toList (.segments [.call "f" as]) := by
    rw [toList_call_f]
    exact ⟨[], _, [], by simp, by simp [Blanks], by simp [Blanks],
      .segments (.last (.call isName_f h))⟩
  have hlevels : (Path.segments [.call "f" as]).nesting ≤ maxNesting := by
    simp only [nesting, Segment.nestingAll, Segment.nesting]
    omega
  exact parse_of_tagSpelling hwhole hlevels

/-- **A tag as the only argument of a call.** Take any tag that is read, that
leaves room for one more argument list around its own, and that begins neither
like a number nor like a list. If it does not begin with `-`, it is read as that
path in the place of an argument, too. If it does, the call is not read: the `-`
cannot stand there. -/
theorem parse_as_argument (tag : String) (p : Path) (h : parse tag = .ok p)
    (hn : p.nesting < maxNesting) (hnum : ¬ StartsNumber (trim tag.toList))
    (hlist : ¬ StartsList (trim tag.toList)) :
    parse ("f(" ++ tag ++ ")") =
      if (trim tag.toList).head? = some '-' then
        .error ⟨.unexpectedChar '-', .char (2 + width (tag.toList.takeWhile isBlank)) '-',
          "f(" ++ tag ++ ")"⟩
      else .ok (.segments [.call "f" [.path p]]) := by
  obtain ⟨after, htag, hafter, hcore⟩ := (tagSpelling_of_parse h).1.trim
  have hbefore : Blanks (tag.toList.takeWhile isBlank) := blanks_takeWhile _
  by_cases hdash : (trim tag.toList).head? = some '-'
  · obtain ⟨rest, hrest⟩ := List.head?_eq_some_iff.1 hdash
    have hbalanced : Balanced true tag.toList := by
      rw [htag]
      exact (hbefore.balanced.append hcore.balanced.anyCommas).append hafter.balanced
    have hends : Written.Ends after := by
      rw [Written.Ends, List.dropWhile_eq_nil_iff.2 hafter]
      simp
    -- the white space behind the path cannot make a number of it
    have hbegins : ¬ StartsNumber ('-' :: (rest ++ after)) := by
      rw [hrest] at hnum
      exact fun hs => hnum (StartsNumber.of_append hends hs)
    have htext : tag.toList = tag.toList.takeWhile isBlank ++ '-' :: (rest ++ after) := by
      rw [hrest, List.append_assoc, List.cons_append] at htag
      exact htag
    rw [if_pos hdash]
    exact parse_call_dash htext hbefore hbalanced hbegins
  · have hreference := isReference_of_not_startsNumber hcore hnum hlist hdash
    have hargs : Arg.ListSpelling tag.toList [.path p] := by
      rw [htag]
      exact .some hbefore.separators (.reference hcore hreference) (.last hafter.separators)
    rw [if_neg hdash]
    refine parse_call_spelling hargs ?_
    simp only [Arg.nestingAll, Arg.nesting]
    omega

/-- A tag with white space around it and an argument list of its own. -/
theorem parse_as_argument_spaced :
    parse " é.b(1) " = .ok (.segments [.bare "é", .call "b" [.literal (.int 1)]]) ∧
      parse ("f(" ++ " é.b(1) " ++ ")") = .ok (.segments [.call "f"
        [.path (.segments [.bare "é", .call "b" [.literal (.int 1)]])]]) := by
  have h : parse " é.b(1) " = .ok (.segments [.bare "é", .call "b" [.literal (.int 1)]]) := by
    have hfirst : IsName ['é'] := ⟨by decide, List.all_eq_true.1 (by decide +kernel)⟩
    have hsecond : IsName ['b'] := ⟨by decide, List.all_eq_true.1 (by decide)⟩
    have hone : Numeral.Proper ⟨none, ['1'], none, none⟩ :=
      ⟨nofun, List.all_eq_true.1 (by decide), nofun, .inl (by decide), nofun⟩
    have hargs : Arg.ListSpelling ['1'] [.literal (.int 1)] :=
      @Arg.ListSpelling.some [] ['1'] [] _ [] nofun (.integer hone rfl (by decide)) (.last nofun)
    have hspelling : Path.Spelling "é.b(1)".toList
        (.segments [.bare "é", .call "b" [.literal (.int 1)]]) :=
      .segments (.dot (.bare hfirst) (.last (.call hsecond hargs)))
    have htag : TagSpelling " é.b(1) ".toList
        (.segments [.bare "é", .call "b" [.literal (.int 1)]]) :=
      ⟨[' '], _, [' '], by decide +kernel, List.all_eq_true.1 (by decide),
        List.all_eq_true.1 (by decide), hspelling⟩
    exact parse_of_tagSpelling htag (by decide)
  have htrim : trim " é.b(1) ".toList = "é.b(1)".toList := by decide +kernel
  have hnum : ¬ StartsNumber (trim " é.b(1) ".toList) := by
    rw [← Numeral.scan?_eq_none_iff, htrim]
    decide +kernel
  have hlist : ¬ StartsList (trim " é.b(1) ".toList) := by
    rw [← Written.listOpening?_eq_none_iff, htrim]
    decide +kernel
  have hwhole := parse_as_argument " é.b(1) " _ h (by decide) hnum hlist
  rw [htrim] at hwhole
  exact ⟨h, hwhole⟩

/-- A tag that begins with `-` is no argument. -/
theorem parse_as_argument_dash : ∃ p, parse "-a" = .ok p ∧ p.nesting < maxNesting ∧
    ¬ StartsNumber (trim "-a".toList) ∧ ¬ StartsList (trim "-a".toList) ∧
    parse ("f(" ++ "-a" ++ ")") ≠ .ok (.segments [.call "f" [.path p]]) := by
  have hname : IsName "-a".toList := ⟨by decide, List.all_eq_true.1 (by decide)⟩
  have h : parse "-a" = .ok (.segments [.bare "-a"]) := by
    have hspelling : Path.Spelling "-a".toList (.segments [.bare "-a"]) :=
      .segments (.last (.bare hname))
    have htag : TagSpelling "-a".toList (.segments [.bare "-a"]) :=
      ⟨[], _, [], rfl, nofun, nofun, hspelling⟩
    exact parse_of_tagSpelling htag (by decide)
  have hcall : parse ("f(" ++ "-a" ++ ")") =
      .error ⟨.unexpectedChar '-', ⟨2, 3⟩, "f(" ++ "-a" ++ ")"⟩ := by
    have hnum : ¬ StartsNumber ['-', 'a'] := by
      rw [← Numeral.scan?_eq_none_iff]
      decide +kernel
    exact @parse_call_dash "-a" [] ['a'] rfl nofun hname.balanced hnum
  refine ⟨_, h, by decide, ?_, ?_, by rw [hcall]; simp⟩
  · rw [← Numeral.scan?_eq_none_iff]
    decide +kernel
  · rw [← Written.listOpening?_eq_none_iff]
    decide +kernel

end Path

end TagScope
