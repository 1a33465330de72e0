/-
# What is spelled is read

The other direction: every spelling is read as the path that it spells. Two
things have to be shown of a part of a text. It is balanced, so that whoever
looks for the end of a group or of a reference around it passes over it
(`Path.Spelling.balanced` and its companions). And the scanner that comes to
its beginning takes it whole, whatever stands behind it, as long as that begins
as the grammar has it (`Written.Ends`).

Argument lists inside are again taken as given (`Arg.CompleteWithin`) until
`Arg.completeWithin_readList` closes the circle. Together with the first
direction this says exactly which tags are read.

Key definitions: `Written.Ends`, `Arg.CompleteWithin`.
Key theorems: `Written.scan_of_spelling`, `Path.read_of_tagSpelling`, `Arg.completeWithin_readList`,
`Path.parse_eq_ok_iff`.
-/
import TagScope.Proofs.Balance
import TagScope.Proofs.Sound

namespace TagScope

/-! ### Spellings are balanced -/

theorem Numeral.Proper.of_mem_text {n : Numeral} (hn : n.Proper) {c : Char} (hc : c ∈ n.text) :
    c.isDigit = true ∨ c ∈ ['-', '+', '.', 'e', 'E'] := by
  have sign : ∀ {s : Option Char}, (∀ d ∈ s, d = '-' ∨ d = '+') → c ∈ s.toList →
      c ∈ ['-', '+', '.', 'e', 'E'] := by
    intro s h hc
    rcases h c (Option.mem_toList.1 hc) with rfl | rfl <;> decide
  simp only [Numeral.text, List.mem_append] at hc
  rcases hc with ((hc | hc) | hc) | hc
  · exact Or.inr (sign hn.sign hc)
  · exact Or.inl (hn.whole c hc)
  · cases hf : n.fraction with
    | none => simp [hf] at hc
    | some ds =>
      simp only [hf, Option.elim_some, List.mem_cons] at hc
      rcases hc with rfl | hc
      · exact Or.inr (by decide)
      · exact Or.inl (hn.fraction ds hf c hc)
  · cases he : n.exponent with
    | none => simp [he] at hc
    | some e =>
      obtain ⟨hl, hs, -, hd⟩ := hn.exponent e he
      simp only [he, Option.elim_some, Numeral.Exponent.text, List.cons_append, List.mem_cons,
        List.mem_append] at hc
      rcases hc with rfl | hc | hc
      · rcases hl with h | h <;> rw [h] <;> exact Or.inr (by decide)
      · exact Or.inr (sign hs hc)
      · exact Or.inl (hd c hc)

theorem Numeral.Proper.plain_of_mem_text {n : Numeral} (hn : n.Proper) {c : Char}
    (hc : c ∈ n.text) : (Quoted.isMark c = false ∧ c ≠ '(' ∧ c ≠ ')' ∧ c ≠ ',') ∧
      isBlank c = false := by
  rcases hn.of_mem_text hc with hd | hc
  · exact ⟨plain_of_isNameChar (isNameChar_of_isDigit hd), isBlank_of_isDigit hd⟩
  · simp only [List.mem_cons, List.not_mem_nil, or_false] at hc
    rcases hc with rfl | rfl | rfl | rfl | rfl <;> decide

theorem IsName.balanced {name : List Char} (h : IsName name) {b : Bool} : Balanced b name :=
  .of_plain fun c hc => by
    obtain ⟨hm, ho, hcl, hcomma⟩ := plain_of_isNameChar (h.chars c hc)
    exact ⟨hm, ho, hcl, fun h => absurd h hcomma⟩

theorem Written.isName_listWord : IsName Written.listWord :=
  ⟨by simp [Written.listWord], List.all_eq_true.1 (by decide)⟩

theorem Blanks.balanced {gap : List Char} (h : Blanks gap) {b : Bool} : Balanced b gap :=
  .of_plain fun c hc => by
    obtain ⟨hm, ho, hcl, hcomma⟩ := plain_of_isBlank (h c hc)
    exact ⟨hm, ho, hcl, fun h => absurd h hcomma⟩

theorem Separators.balanced {gap : List Char} (h : Separators gap) : Balanced true gap :=
  .of_plain fun c hc => by
    have hs := h c hc
    simp only [Token.isSeparator, Bool.or_eq_true, decide_eq_true_eq] at hs
    rcases hs with hs | rfl
    · obtain ⟨hm, ho, hcl, -⟩ := plain_of_isBlank hs
      exact ⟨hm, ho, hcl, fun _ => rfl⟩
    · decide

theorem Balanced.dot {b : Bool} {cs : List Char} (h : Balanced b cs) : Balanced b ('.' :: cs) :=
  .plain (by decide) (by decide) (by decide) (fun h => absurd h (by decide)) h

mutual

theorem Path.Spelling.balanced {cs : List Char} {p : Path} (h : Path.Spelling cs p) :
    Balanced false cs := by
  match h with
  | .current => exact Balanced.nil.dot
  | .segments hchain => exact Segment.ChainSpelling.balanced hchain

theorem Segment.ChainSpelling.balanced {cs : List Char} {ss : List Segment}
    (h : Segment.ChainSpelling cs ss) : Balanced false cs := by
  match h with
  | .last hs => exact Segment.Spelling.balanced hs
  | .dot hs hrest =>
    exact (Segment.Spelling.balanced hs).append (Segment.ChainSpelling.balanced hrest).dot

theorem Segment.Spelling.balanced {cs : List Char} {s : Segment} (h : Segment.Spelling cs s) :
    Balanced false cs := by
  match h with
  | .bare hn => exact hn.balanced
  | .call hn hl =>
    have hgroup := Balanced.group (Arg.ListSpelling.balanced hl) (@Balanced.nil false)
    have := hn.balanced.append hgroup
    simpa using this

theorem Arg.Spelling.balanced {cs : List Char} {a : Arg} (h : Arg.Spelling cs a) :
    Balanced false cs := by
  match h with
  | .text hm hbody =>
    have := Balanced.quoted hm hbody (@Balanced.nil false)
    simpa using this
  | .integer hn _ _ | .decimal hn _ _ =>
    exact .of_plain fun c hc => by
      obtain ⟨⟨hm, ho, hcl, hcomma⟩, -⟩ := hn.plain_of_mem_text hc
      exact ⟨hm, ho, hcl, fun h => absurd h hcomma⟩
  | .list hg hl =>
    have hword := @IsName.balanced _ Written.isName_listWord false
    have hgroup := Balanced.group (Arg.ListSpelling.balanced hl) (@Balanced.nil false)
    have := (hword.append hg.balanced).append hgroup
    simpa using this
  | .reference hp _ => exact Path.Spelling.balanced hp

theorem Arg.ListSpelling.balanced {cs : List Char} {as : List Arg} (h : Arg.ListSpelling cs as) :
    Balanced true cs := by
  match h with
  | .none hg => exact hg.balanced
  | .some hg ha hr =>
    exact (hg.balanced.append (Arg.Spelling.balanced ha).anyCommas).append
      (Arg.RestSpelling.balanced hr)

theorem Arg.RestSpelling.balanced {cs : List Char} {as : List Arg} (h : Arg.RestSpelling cs as) :
    Balanced true cs := by
  match h with
  | .last hg => exact hg.balanced
  | .comma hg _ ha hr =>
    exact (hg.balanced.append (Arg.Spelling.balanced ha).anyCommas).append
      (Arg.RestSpelling.balanced hr)

end

/-! ### Paths -/

/-- A reader of argument lists takes every spelling of at most `levels` lists
inside one another. -/
def Arg.CompleteWithin (levels : Nat) (arguments : Nat → List Char → Except Fault (List Arg)) :
    Prop :=
  ∀ opened inside as, Arg.ListSpelling inside as → Arg.nestingAll as < levels →
    arguments opened inside = .ok as

section

variable {levels : Nat} {arguments : Nat → List Char → Except Fault (List Arg)}

/-- Where a segment may end: neither its name nor a parenthesis follows. -/
def RawSegment.Ends (rest : List Char) : Prop :=
  ∀ c ∈ rest.head?, isNameChar c = false ∧ c ≠ '('

theorem RawSegment.ends_of_blanks {rest : List Char} (h : Blanks rest) : RawSegment.Ends rest := by
  intro c hc
  have hb := h c (List.mem_of_mem_head? hc)
  exact ⟨isNameChar_of_isBlank hb, ne_of_isBlank hb (by decide)⟩

theorem RawSegment.ends_dot (rest : List Char) : RawSegment.Ends ('.' :: rest) := by
  intro c hc
  obtain rfl : '.' = c := Option.some.inj hc
  decide

theorem RawSegment.scanOne_misplaced {cs : List Char} (h : Stops isNameChar cs) (pos : Nat) :
    scanOne pos cs = .error (misplaced pos cs) := by
  unfold scanOne
  rw [takeWhile_stops h]
  rfl

theorem RawSegment.scanOne_bare {name rest : List Char} (hn : IsName name)
    (hr : RawSegment.Ends rest) (pos : Nat) :
    scanOne pos (name ++ rest) = .ok (⟨pos, name, none⟩, rest) := by
  have hstop : Stops isNameChar rest := fun c hc => (hr c hc).1
  have hne : name.isEmpty = false := by simpa using hn.nonempty
  unfold scanOne
  simp only [takeWhile_append_stops hn.chars hstop, dropWhile_append_stops hn.chars hstop, hne,
    Bool.false_eq_true, if_false]
  split
  · exact absurd rfl (hr '(' rfl).2
  · rfl

theorem RawSegment.scanOne_call {name : List Char} (hn : IsName name) (pos : Nat)
    (inner : List Char) : scanOne pos (name ++ '(' :: inner) =
      (Nesting.close (pos + width name) inner).map fun (inside, after) =>
        (⟨pos, name, some inside⟩, after) := by
  have hstop : Stops isNameChar ('(' :: inner) := stops_cons.2 (by decide)
  have hne : name.isEmpty = false := by simpa using hn.nonempty
  unfold scanOne
  simp only [takeWhile_append_stops hn.chars hstop, dropWhile_append_stops hn.chars hstop, hne,
    Bool.false_eq_true, if_false]

/-- A segment is read whole where it may end. -/
theorem RawSegment.scanOne_of_spelling (ha : Arg.CompleteWithin levels arguments) (pos : Nat)
    {text rest : List Char} {s : Segment} (h : Segment.Spelling text s) (hl : s.nesting ≤ levels)
    (hr : RawSegment.Ends rest) :
    ∃ raw : RawSegment, scanOne pos (text ++ rest) = .ok (raw, rest) ∧ raw.text = text ∧
      Segment.read arguments raw = .ok s := by
  cases h with
  | bare hn =>
    exact ⟨⟨pos, text, none⟩, scanOne_bare hn hr pos, by simp [RawSegment.text], rfl⟩
  | @call name inside args hn hargs =>
    have hlt : Arg.nestingAll args < levels := by rwa [Segment.nesting] at hl
    have heq : name ++ '(' :: inside ++ [')'] ++ rest = name ++ '(' :: (inside ++ ')' :: rest) := by
      simp
    refine ⟨⟨pos, name, some inside⟩, ?_, by simp [RawSegment.text], ?_⟩
    · rw [heq, scanOne_call hn, Nesting.close_of_balanced hargs.balanced]
      rfl
    · rw [Segment.read]
      simp only [ha _ _ _ hargs hlt]
      rfl

theorem Segment.scan_of_chainSpelling (ha : Arg.CompleteWithin levels arguments)
    {core after : List Char} {ss : List Segment} (hafter : Blanks after) (pos : Nat)
    (h : Segment.ChainSpelling core ss) (hl : Segment.nestingAll ss ≤ levels) :
    (RawSegment.scan pos (core ++ after)).traverse (Segment.read arguments) = .ok ss := by
  induction ss generalizing core pos with
  | nil => cases h
  | cons s ss ih =>
    rw [Segment.nestingAll, Nat.max_le] at hl
    obtain ⟨hs, hss⟩ := hl
    cases h with
    | last hspelling =>
      obtain ⟨raw, hone, -, hread⟩ := RawSegment.scanOne_of_spelling ha pos hspelling hs
        (RawSegment.ends_of_blanks hafter)
      rw [RawSegment.scan_last hone hafter.all, Scan.traverse_cons_eq_ok]
      exact ⟨s, [], hread, rfl, rfl⟩
    | @dot cs rest _ _ hspelling hrest =>
      obtain ⟨raw, hone, -, hread⟩ := RawSegment.scanOne_of_spelling ha pos hspelling hs
        (RawSegment.ends_dot (rest ++ after))
      have htail := ih (pos + width raw.text + 1) hrest hss
      rw [List.append_assoc, List.cons_append, RawSegment.scan_dot hone, Scan.traverse_cons_eq_ok]
      exact ⟨s, ss, hread, htail, rfl⟩

theorem Segment.ChainSpelling.head {cs : List Char} {ss : List Segment}
    (h : Segment.ChainSpelling cs ss) : ∃ c more, cs = c :: more ∧ isNameChar c = true := by
  obtain ⟨s, rest, name, more, -, hn, -, rfl, -, -⟩ := h.lead
  cases name with
  | nil => exact absurd rfl hn.nonempty
  | cons c ds => exact ⟨c, ds ++ more, rfl, hn.chars c List.mem_cons_self⟩

/-- **A tag is read as the path that it spells.** -/
theorem Path.read_of_tagSpelling (ha : Arg.CompleteWithin levels arguments) (pos : Nat)
    {cs : List Char} {p : Path} (h : Path.TagSpelling cs p) (hl : p.nesting ≤ levels) :
    Path.read arguments pos cs = .ok p := by
  obtain ⟨before, core, after, rfl, hbefore, hafter, hcore⟩ := h
  cases hcore with
  | current =>
    have hstop : Stops isBlank ('.' :: after) := stops_cons.2 (by decide)
    have heq : before ++ ['.'] ++ after = before ++ '.' :: after := by simp
    rw [heq, Path.read, dropWhile_append_stops hbefore hstop]
    simp only [if_true, hafter.all]
  | @segments _ ss hchain =>
    obtain ⟨c, more, rfl, hc⟩ := hchain.head
    have hstop : Stops isBlank (c :: more ++ after) := stops_cons.2 (isBlank_of_isNameChar hc)
    have hdot : c ≠ '.' := ne_of_isNameChar hc (by decide)
    rw [Path.nesting] at hl
    rw [List.append_assoc, Path.read, dropWhile_append_stops hbefore hstop]
    simp only [List.cons_append, hdot, if_false]
    rw [← List.cons_append, Segment.scan_of_chainSpelling ha hafter _ hchain hl]
    rfl

/-! ### Arguments -/

namespace Written

/-- What stands behind an argument: white space, and then a comma or nothing. -/
def Ends (rest : List Char) : Prop := ∀ c ∈ (rest.dropWhile isBlank).head?, c = ','

theorem Ends.head {rest : List Char} (h : Ends rest) :
    ∀ c ∈ rest.head?, isBlank c = true ∨ c = ',' := by
  intro c hc
  cases rest with
  | nil => simp at hc
  | cons d ds =>
    simp only [List.head?_cons, Option.mem_def, Option.some.injEq] at hc
    subst hc
    cases hb : isBlank d with
    | true => exact Or.inl rfl
    | false =>
      refine Or.inr (h d ?_)
      rw [dropWhile_stops (stops_cons.2 hb)]
      rfl

theorem Ends.stops {p : Char → Bool} {rest : List Char} (h : Ends rest)
    (hb : ∀ c, isBlank c = true → p c = false) (hc : p ',' = false) : Stops p rest := by
  intro c hmem
  rcases h.head c hmem with hblank | rfl
  · exact hb c hblank
  · exact hc

theorem extends_of_isBlank {c : Char} (h : isBlank c = true) : Numeral.Extends c = false := by
  have hd : c.isDigit = false := by
    cases hd : c.isDigit with
    | false => rfl
    | true => rw [isBlank_of_isDigit hd] at h; exact absurd h (by simp)
  have hdot : c ≠ '.' := ne_of_isBlank h (by decide)
  have he : c ≠ 'e' := ne_of_isBlank h (by decide)
  have hE : c ≠ 'E' := ne_of_isBlank h (by decide)
  simp [Numeral.Extends, hd, hdot, he, hE]

/-- A reference is trimmed of the white space behind it and of nothing else. -/
theorem trimEnd_append {cs blanks : List Char} (hb : Blanks blanks)
    (hl : ∀ c ∈ cs.getLast?, isBlank c = false) :
    trimEnd (cs ++ blanks) = cs ∧ blankEnd (cs ++ blanks) = blanks := by
  have hb' : ∀ c ∈ blanks.reverse, isBlank c = true := fun c hc => hb c (List.mem_reverse.1 hc)
  have hstop : Stops isBlank cs.reverse := by
    intro c hc
    rw [List.head?_reverse] at hc
    exact hl c hc
  rw [trimEnd, blankEnd, List.reverse_append, dropWhile_append_stops hb' hstop,
    takeWhile_append_stops hb' hstop, List.reverse_reverse, List.reverse_reverse]
  exact ⟨rfl, rfl⟩

/-- Where a name other than `array` stands, or one without arguments, no list
begins. -/
theorem listOpening?_eq_none {name more rest : List Char} (hn : IsName name)
    (hmore : ∀ c ∈ more.head?, c = '(' ∨ c = '.')
    (hcall : name = listWord → more.head? ≠ some '(') (hr : Ends rest) :
    listOpening? (name ++ more ++ rest) = none := by
  cases ho : listOpening? (name ++ more ++ rest) with
  | none => rfl
  | some r =>
    obtain ⟨gap, inner⟩ := r
    exfalso
    have hgap := blanks_of_listOpening? ho
    have heq := eq_of_listOpening? ho
    rw [List.append_assoc, List.append_assoc] at heq
    -- both sides begin with their name and stop there
    have hstop : Stops isNameChar (more ++ rest) := by
      cases more with
      | nil => exact hr.stops (fun _ => isNameChar_of_isBlank) (by decide)
      | cons c cs => rcases hmore c rfl with rfl | rfl <;> exact stops_cons.2 (by decide)
    have hstop' : Stops isNameChar (gap ++ '(' :: inner) := by
      cases gap with
      | nil => exact stops_cons.2 (by decide)
      | cons c cs => exact stops_cons.2 (isNameChar_of_isBlank (hgap c List.mem_cons_self))
    have hword := isName_listWord.chars
    have hname := congrArg (List.takeWhile isNameChar) heq
    rw [takeWhile_append_stops hn.chars hstop, takeWhile_append_stops hword hstop'] at hname
    have htail := congrArg (List.dropWhile isNameChar) heq
    rw [dropWhile_append_stops hn.chars hstop, dropWhile_append_stops hword hstop'] at htail
    -- so the parenthesis of the list stands behind the name or behind the argument
    have hblank := congrArg (List.dropWhile isBlank) htail
    rw [dropWhile_append_stops hgap (stops_cons.2 (by decide))] at hblank
    cases more with
    | nil =>
      rw [List.nil_append] at hblank
      have := hr '(' (by rw [hblank]; rfl)
      exact absurd this (by decide)
    | cons c cs =>
      rcases hmore c rfl with rfl | rfl
      · exact hcall hname rfl
      · rw [List.cons_append, dropWhile_stops (stops_cons.2 (by decide))] at hblank
        exact absurd (List.cons.inj hblank).1 (by decide)

end Written

theorem Segment.Spelling.getLast? {cs : List Char} {s : Segment} (h : Segment.Spelling cs s) :
    ∃ c, cs.getLast? = some c ∧ isBlank c = false := by
  cases h with
  | bare hn =>
    refine ⟨cs.getLast hn.nonempty, List.getLast?_eq_some_getLast hn.nonempty, ?_⟩
    exact isBlank_of_isNameChar (hn.chars _ (List.getLast_mem hn.nonempty))
  | call _ _ => exact ⟨')', List.getLast?_concat, by decide⟩

theorem Segment.ChainSpelling.getLast? : ∀ {cs : List Char} {ss : List Segment},
    Segment.ChainSpelling cs ss → ∃ c, cs.getLast? = some c ∧ isBlank c = false
  | _, _, .last hs => hs.getLast?
  | _, _, .dot _ hrest => by
    obtain ⟨c, hc, hb⟩ := Segment.ChainSpelling.getLast? hrest
    refine ⟨c, ?_, hb⟩
    rw [List.getLast?_append, List.getLast?_cons, hc]
    rfl

theorem Path.Spelling.getLast? {cs : List Char} {p : Path} (h : Path.Spelling cs p) :
    ∀ c ∈ cs.getLast?, isBlank c = false := by
  intro c hc
  cases h with
  | current =>
    simp only [List.getLast?_singleton, Option.mem_def, Option.some.injEq] at hc
    subst hc
    decide
  | segments hchain =>
    obtain ⟨d, hd, hb⟩ := hchain.getLast?
    rw [hd, Option.mem_def, Option.some.injEq] at hc
    exact hc ▸ hb

/-- How a reference begins: neither a text nor a number nor a list begins
there. -/
theorem Path.Spelling.begins {cs rest : List Char} {p : Path} (h : Path.Spelling cs p)
    (hp : p.IsReference) (hr : Written.Ends rest) : ∃ c more, cs = c :: more ∧
      Written.startsReference c = true ∧
      Numeral.scan? (cs ++ rest) = none ∧ Written.listOpening? (cs ++ rest) = none := by
  cases h with
  | current =>
    have hstop : Stops Char.isDigit rest := hr.stops
      (fun c hc => by
        cases hd : c.isDigit with
        | false => rfl
        | true => rw [isBlank_of_isDigit hd] at hc; exact absurd hc (by simp)) (by decide)
    exact ⟨'.', [], rfl, by decide,
      Numeral.scan?_eq_none (by decide) (by decide) fun _ => hstop, rfl⟩
  | @segments _ ss hchain =>
    obtain ⟨s, tail, name, more, rfl, hn, hname, rfl, hmore, hcall⟩ := hchain.lead
    obtain ⟨⟨c, ds, hcs, hstart⟩, hlist⟩ := hp s rfl
    rw [hname, String.toList_ofList] at hcs hlist
    subst hcs
    obtain ⟨hc, hd⟩ := isNameChar_of_startsName hstart
    have hreference : Written.startsReference c = true := by
      simp only [startsName, Bool.or_eq_true, Bool.and_eq_true, decide_eq_true_eq] at hstart
      rcases hstart with rfl | ⟨h, -⟩
      · decide
      · simp [Written.startsReference, h]
    have hsign : c ≠ '-' ∧ c ≠ '+' := by
      constructor <;> (rintro rfl; revert hstart; decide)
    refine ⟨c, ds ++ more, rfl, hreference, ?_, ?_⟩
    · exact Numeral.scan?_eq_none hd hsign fun h => absurd h (ne_of_isNameChar hc (by decide))
    · exact Written.listOpening?_eq_none hn hmore
        (fun hw hparen => hlist ⟨hcall.2 hparen, hw⟩) hr

theorem Written.scan_number (pos : Nat) {n : Numeral} (hn : n.Proper) {rest : List Char}
    (hr : Ends rest) : ∃ c more, n.text = c :: more ∧ Token.isSeparator c = false ∧
      scan pos c (more ++ rest) = .ok (.number n, rest) := by
  obtain ⟨c, more, htext, hc⟩ := Numeral.text_head hn
  have hclass : Token.isSeparator c = false ∧ Quoted.isMark c = false := by
    rcases hc with hc | rfl | rfl | rfl
    · have hcomma := ne_of_isDigit hc (d := ',') (by decide)
      have hm := (plain_of_isNameChar (isNameChar_of_isDigit hc)).1
      exact ⟨by simp [Token.isSeparator, isBlank_of_isDigit hc, hcomma], hm⟩
    · decide
    · decide
    · decide
  have hextends : Stops Numeral.Extends rest := hr.stops (fun _ => extends_of_isBlank) (by decide)
  have hscan := Numeral.scan?_append hn hextends
  rw [htext, List.cons_append] at hscan
  refine ⟨c, more, htext, hclass.1, ?_⟩
  rw [scan, if_neg (by simp [hclass.2]), hscan]

/-- Where only a reference can begin, it is trimmed of the white space behind it. -/
theorem Written.scan_of_reach {pos : Nat} {c : Char} {cs before after : List Char}
    (hstart : startsReference c = true) (hn : Numeral.scan? (c :: cs) = none)
    (hl : listOpening? (c :: cs) = none) (h : Nesting.reach pos (c :: cs) = .ok (before, after)) :
    scan pos c cs = .ok (.reference (trimEnd before), blankEnd before ++ after) := by
  have hm : Quoted.isMark c = false := by
    cases hq : Quoted.isMark c with
    | false => rfl
    | true =>
      simp only [Quoted.isMark, Bool.or_eq_true, decide_eq_true_eq] at hq
      rcases hq with rfl | rfl <;> exact absurd hstart (by decide)
  rw [scan, if_neg (by simp [hm]), hn]
  simp only [hl, hstart, if_true, scanReference, h, Except.map]

theorem Written.scan_of_close {pos : Nat} {gap inner inside after : List Char} (hg : Blanks gap)
    (h : Nesting.close (listOpened pos gap) inner = .ok (inside, after)) :
    scan pos 'a' (['r', 'r', 'a', 'y'] ++ gap ++ '(' :: inner) = .ok (.list gap inside, after) := by
  have hopen := @listOpening?_append gap inner hg
  have heq : listWord ++ gap ++ '(' :: inner =
      'a' :: (['r', 'r', 'a', 'y'] ++ gap ++ '(' :: inner) := by simp [listWord]
  rw [heq] at hopen
  rw [scan, if_neg (by decide),
    Numeral.scan?_eq_none (by decide) (by decide) (fun h => absurd h (by decide))]
  simp only [hopen, scanList, h]
  rfl

/-- A reference is scanned whole, without the white space behind it. -/
theorem Written.scan_reference (pos : Nat) {cs rest : List Char} {p : Path}
    (h : Path.Spelling cs p) (hp : p.IsReference) (hr : Ends rest) :
    ∃ c more, cs = c :: more ∧ Token.isSeparator c = false ∧
      scan pos c (more ++ rest) = .ok (.reference cs, rest) := by
  obtain ⟨c, more, rfl, hstart, hnum, hlist⟩ := h.begins hp hr
  have hblank := not_blank_of_startsReference hstart
  have hcomma : c ≠ ',' := by rintro rfl; revert hstart; decide
  have hgap : Blanks (rest.takeWhile isBlank) := fun _ hc => List.mem_takeWhile_imp hc
  have hrest : rest.takeWhile isBlank ++ rest.dropWhile isBlank = rest :=
    List.takeWhile_append_dropWhile
  have hreach := Nesting.reach_of_balanced (h.balanced.append hgap.balanced) pos hr
  rw [List.append_assoc, hrest] at hreach
  obtain ⟨htrim, hend⟩ := trimEnd_append hgap h.getLast?
  refine ⟨c, more, rfl, by simp [Token.isSeparator, hblank, hcomma], ?_⟩
  rw [List.cons_append] at hnum hlist hreach
  rw [scan_of_reach hstart hnum hlist hreach, htrim, hend, hrest]

/-- **An argument is scanned whole and read** where an argument can end. -/
theorem Written.scan_of_spelling (ha : Arg.CompleteWithin levels arguments) (pos : Nat)
    {cs rest : List Char} {a : Arg} (h : Arg.Spelling cs a) (hl : a.nesting ≤ levels)
    (hr : Ends rest) : ∃ c more w, cs = c :: more ∧ Token.isSeparator c = false ∧ w.text = cs ∧
      scan pos c (more ++ rest) = .ok (w, rest) ∧ Arg.read arguments ⟨pos, w⟩ = .ok a := by
  cases h with
  | @text mark body text hm hbody =>
    have hsep : Token.isSeparator mark = false := by
      simp only [Quoted.isMark, Bool.or_eq_true, decide_eq_true_eq] at hm
      rcases hm with rfl | rfl <;> decide
    refine ⟨mark, body ++ [mark], .quoted mark body, rfl, hsep, rfl, ?_, ?_⟩
    · rw [scan, if_pos hm, List.append_assoc, List.singleton_append,
        Quoted.close_of_body hm hbody]
    · simp only [Arg.read, Quoted.decode_of_body hbody]
  | @integer n i hn hdec hi =>
    obtain ⟨c, more, htext, hsep, hscan⟩ := scan_number pos hn hr
    refine ⟨c, more, .number n, htext, hsep, rfl, hscan, ?_⟩
    simp [Arg.read, hdec, Numeral.toInt64?_eq_some_iff.2 hi]
  | @decimal n x hn hdec hx =>
    obtain ⟨c, more, htext, hsep, hscan⟩ := scan_number pos hn hr
    rw [Numeral.ofText?_text hn, Option.some.injEq] at hx
    refine ⟨c, more, .number n, htext, hsep, rfl, hscan, ?_⟩
    simp [Arg.read, hdec, hx]
  | @list gap inside items hg hitems =>
    have hlt : Arg.nestingAll items < levels := by rwa [Arg.nesting] at hl
    have hclose := Nesting.close_of_balanced hitems.balanced (listOpened pos gap) rest
    have heq : ['r', 'r', 'a', 'y'] ++ gap ++ '(' :: inside ++ [')'] ++ rest =
        ['r', 'r', 'a', 'y'] ++ gap ++ '(' :: (inside ++ ')' :: rest) := by simp
    refine ⟨'a', ['r', 'r', 'a', 'y'] ++ gap ++ '(' :: inside ++ [')'], .list gap inside, rfl,
      by decide, rfl, ?_, ?_⟩
    · rw [heq, scan_of_close hg hclose]
    · rw [Arg.read]
      simp only [ha _ _ _ hitems hlt]
      rfl
  | @reference _ p hp href =>
    obtain ⟨c, more, rfl, hsep, hscan⟩ := scan_reference pos hp href hr
    have htag : Path.TagSpelling (c :: more) p :=
      ⟨[], c :: more, [], by simp, by simp [Blanks], by simp [Blanks], hp⟩
    refine ⟨c, more, .reference (c :: more), rfl, hsep, rfl, hscan, ?_⟩
    rw [Arg.read]
    simp only [Path.read_of_tagSpelling ha pos htag hl]
    rfl

/-! ### Argument lists -/

/-- Behind an argument a list is over, or it goes on behind the first comma. -/
theorem Arg.RestSpelling.split {rest : List Char} {as : List Arg} (h : Arg.RestSpelling rest as) :
    (rest.dropWhile isBlank = [] ∧ as = []) ∨
      ∃ more, rest.dropWhile isBlank = ',' :: more ∧ Arg.ListSpelling more as := by
  have first : ∀ {gap : List Char}, Separators gap → gap.dropWhile isBlank = [] ∨
      ∃ more, gap.dropWhile isBlank = ',' :: more ∧ Separators more := by
    intro gap hg
    cases hd : gap.dropWhile isBlank with
    | nil => exact Or.inl rfl
    | cons c cs =>
      have hb : isBlank c = false := by
        have := stops_dropWhile isBlank gap
        rw [hd] at this
        exact stops_cons.1 this
      have hsub : ∀ d ∈ c :: cs, d ∈ gap := by
        rw [← hd]
        exact fun d hd => (List.dropWhile_sublist _).subset hd
      have hc := hg c (hsub c List.mem_cons_self)
      simp only [Token.isSeparator, hb, Bool.false_or, decide_eq_true_eq] at hc
      exact Or.inr ⟨cs, by rw [hc], fun d hd => hg d (hsub d (List.mem_cons_of_mem _ hd))⟩
  cases h with
  | last hg =>
    rcases first hg with hd | ⟨more, hd, hm⟩
    · exact Or.inl ⟨hd, rfl⟩
    · exact Or.inr ⟨more, hd, .none hm⟩
  | @comma gap cs rest a as hg hcomma ha hrest =>
    rcases first hg with hd | ⟨more, hd, hm⟩
    · have := List.dropWhile_eq_nil_iff.1 hd ',' hcomma
      exact absurd this (by decide)
    · refine Or.inr ⟨more ++ cs ++ rest, ?_, .some hm ha hrest⟩
      rw [List.append_assoc, List.dropWhile_append, hd]
      simp

theorem Arg.RestSpelling.ends {rest : List Char} {as : List Arg} (h : Arg.RestSpelling rest as) :
    Written.Ends rest := by
  intro c hc
  rcases h.split with ⟨hd, -⟩ | ⟨more, hd, -⟩
  · rw [hd] at hc
    simp at hc
  · rw [hd, List.head?_cons, Option.mem_def, Option.some.injEq] at hc
    exact hc.symm

/-- **An argument list is read as the arguments that it spells.** -/
theorem Arg.scan_of_listSpelling (ha : Arg.CompleteWithin levels arguments) :
    ∀ (as : List Arg) {cs : List Char} (pos : Nat), Arg.ListSpelling cs as →
    Arg.nestingAll as ≤ levels → (Token.scan pos cs).traverse (Arg.read arguments) = .ok as
  | [], _, pos, .none hg, _ => by
    rw [Token.scan_nil (List.dropWhile_eq_nil_iff.2 hg)]
    rfl
  | a :: as, _, pos, @Arg.ListSpelling.some gap text rest _ _ hg hsp hrest, hl => by
    rw [Arg.nestingAll] at hl
    obtain ⟨c, more, w, rfl, hsep, htext, hscan, hread⟩ := Written.scan_of_spelling ha
      (pos + width gap) hsp (Nat.max_le.1 hl).1 hrest.ends
    have hstop : Stops Token.isSeparator (c :: (more ++ rest)) := stops_cons.2 hsep
    have heq : gap ++ c :: more ++ rest = gap ++ c :: (more ++ rest) := by simp
    have hdrop := dropWhile_append_stops hg hstop
    have htake := takeWhile_append_stops hg hstop
    rw [heq]
    rcases hrest.split with ⟨hd, rfl⟩ | ⟨next, hd, hnext⟩
    · rw [Token.scan_last hdrop (by rw [htake]; exact hscan) hd, htake, Scan.traverse_cons_eq_ok]
      exact ⟨a, [], hread, rfl, rfl⟩
    · rw [Token.scan_comma hdrop (by rw [htake]; exact hscan) hd, htake, Scan.traverse_cons_eq_ok]
      exact ⟨a, as, hread, Arg.scan_of_listSpelling ha as _ hnext (Nat.max_le.1 hl).2, rfl⟩

end

/-- **Every argument list is read** that nests as deep as it may at most. -/
theorem Arg.completeWithin_readList : ∀ levels, Arg.CompleteWithin levels (Arg.readList levels)
  | 0 => fun _ _ _ _ h => absurd h (Nat.not_lt_zero _)
  | levels + 1 => fun _ _ as hs hl =>
    Arg.scan_of_listSpelling (Arg.completeWithin_readList levels) as _ hs (Nat.le_of_lt_succ hl)

/-! ### Tags -/

namespace Path

theorem parse_eq_ok {tag : String} {p : Path} :
    parse tag = .ok p ↔ read (Arg.readList maxNesting) 0 tag.toList = .ok p := by
  rw [parse]
  cases read (Arg.readList maxNesting) 0 tag.toList <;> simp [Except.mapError]

theorem tagSpelling_of_parse {tag : String} {p : Path} (h : parse tag = .ok p) :
    TagSpelling tag.toList p ∧ p.nesting ≤ maxNesting :=
  tagSpelling_of_read (Arg.soundWithin_readList maxNesting) (parse_eq_ok.1 h)

theorem parse_of_tagSpelling {tag : String} {p : Path} (h : TagSpelling tag.toList p)
    (hl : p.nesting ≤ maxNesting) : parse tag = .ok p :=
  parse_eq_ok.2 (read_of_tagSpelling (Arg.completeWithin_readList maxNesting) 0 h hl)

/-- **A tag is read as the path that it spells**, if argument lists nest as
deep in it as they may at most, and no other tag is read. -/
theorem parse_eq_ok_iff (tag : String) (p : Path) :
    parse tag = .ok p ↔ TagSpelling tag.toList p ∧ p.nesting ≤ maxNesting :=
  ⟨tagSpelling_of_parse, fun h => parse_of_tagSpelling h.1 h.2⟩

end Path

end TagScope
