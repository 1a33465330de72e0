/-
# Errors point at what they name

An error tells what is wrong with a tag and where. Here it is said for each
cause what stands at that place and around it (`SyntaxError.Cause.Names`), and
that every error of a tag points at such a place, however deep in the tag the
argument stands in which it was met (`Path.parse_error_names`).

The reader of an argument list is taken as given for the lists inside
(`Arg.FaultsPoint`), and the last lemma before the theorem ties it to itself
level by level. Two things are carried inward. What a group holds is closed, so
only at the top, where the text ends with the tag, can an end be missing. And
where an argument begins, a parenthesis or a separator stands before it, and
behind it white space and then a comma or the parenthesis of its list.

Key definitions: `SyntaxError.Cause.Names`, `Fault.PointsInto`, `Nesting.Placed`,
`Arg.FaultsPoint`.
Key theorems: `Nesting.pointsInto_of_close`, `RawSegment.pointsInto_of_scan`,
`Token.pointsInto_of_scan`, `Arg.faultsPoint_readList`, `Path.parse_error_names`.
-/
import TagScope.Proofs.Enclosed

namespace TagScope

/-! ### What an error names -/

/-- A literal as it stands in an argument list, from its first character to its
last. -/
inductive IsLiteral : List Char → Prop where
  | quoted {mark : Char} {body text : List Char} :
    Quoted.isMark mark = true → Quoted.Body mark body text → IsLiteral (mark :: body ++ [mark])
  | number {n : Numeral} : n.Proper → IsLiteral n.text
  | list {gap rest : List Char} :
    Blanks gap → Pass.closesLast { depth := 1 } rest = true →
    IsLiteral (Written.listWord ++ gap ++ '(' :: rest)

/-- Whether an argument can begin behind this text: with its list, or behind a
separator. -/
def OpensArgument (before : List Char) : Prop :=
  ∃ c, before.getLast? = some c ∧ (c = '(' ∨ Token.isSeparator c = true)

/-- Whether an argument can end before this text: with its list, or at a comma. -/
def EndsArgument (after : List Char) : Prop :=
  ∃ gap c rest, after = gap ++ c :: rest ∧ Blanks gap ∧ (c = ',' ∨ c = ')')

/-- What an error names: the text `spanned` that it spans, between what stands
`before` it and `after` it in the tag. -/
def SyntaxError.Cause.Names (cause : SyntaxError.Cause) (before spanned after : List Char) :
    Prop :=
  match cause with
  | .emptyPath => before = [] ∧ after = [] ∧ Blanks spanned
  | .emptySegment => before.getLast? = some '.' ∧ (spanned = [] ∨ spanned = ['.'])
  | .misplacedDot => spanned = ['.']
  | .unexpectedChar c => spanned = [c] ∧ c ≠ '.' ∧ c ≠ ')'
  | .unterminatedString =>
    after = [] ∧ ∃ mark body, Quoted.isMark mark = true ∧ spanned = mark :: body
  | .unclosedParen => spanned = ['(']
  | .unmatchedParen => spanned = [')']
  | .expectedSeparator =>
    (∃ c, spanned = [c] ∧ Token.isSeparator c = false) ∧
    ∃ outer literal gap, before = outer ++ literal ++ gap ∧ OpensArgument outer ∧
      IsLiteral literal ∧ Blanks gap
  | .invalidNumber =>
    OpensArgument before ∧ EndsArgument after ∧
    ∃ n : Numeral, n.Proper ∧ n.isDecimal = false ∧ spanned = n.sign.toList ++ n.whole ∧
      ¬ (-2 ^ 63 ≤ n.wholeValue ∧ n.wholeValue < 2 ^ 63)
  | .tooDeep => spanned = ['(']

/-- The fault spans a piece of the text, and names it. -/
def Fault.PointsInto (fault : Fault) (text : List Char) : Prop :=
  ∃ before spanned after, text = before ++ spanned ++ after ∧
    fault.span = .covering (width before) spanned ∧ fault.cause.Names before spanned after

theorem Fault.PointsInto.intro {text before spanned after : List Char} {cause : SyntaxError.Cause}
    (htext : text = before ++ spanned ++ after) (h : cause.Names before spanned after) :
    PointsInto ⟨cause, .covering (width before) spanned⟩ text :=
  ⟨before, spanned, after, htext, rfl, h⟩

/-! ### Ends that are missing -/

namespace Nesting

/-- What is open has been opened in the text: the outermost group by a
parenthesis, the quoted text by its mark. -/
structure Placed (n : Nesting) (text : List Char) : Prop where
  group : n.depth ≠ 0 → ∃ before after, text = before ++ '(' :: after ∧ n.opened = width before
  quoted : ∀ mark opened, n.quote = .inside mark opened ∨ n.quote = .escaped mark opened →
    Quoted.isMark mark = true ∧
      ∃ before after, text = before ++ mark :: after ∧ opened = width before

variable {n : Nesting} {text : List Char}

theorem Placed.append (h : n.Placed text) (more : List Char) : n.Placed (text ++ more) where
  group hd := by
    obtain ⟨before, after, rfl, hpos⟩ := h.group hd
    exact ⟨before, after ++ more, by simp, hpos⟩
  quoted mark opened hq := by
    obtain ⟨hm, before, after, rfl, hpos⟩ := h.quoted mark opened hq
    exact ⟨hm, before, after ++ more, by simp, hpos⟩

theorem Placed.step (h : n.Placed text) (c : Char) :
    (n.step (width text) c).Placed (text ++ [c]) := by
  have happ := h.append [c]
  unfold Nesting.step
  split
  · rename_i mark opened hq
    split
    · exact ⟨happ.group, by simp⟩
    · split
      · refine ⟨happ.group, fun mark' opened' hq' => ?_⟩
        simp only [reduceCtorEq, Quote.escaped.injEq, false_or] at hq'
        obtain ⟨rfl, rfl⟩ := hq'
        exact happ.quoted _ _ (Or.inl hq)
      · exact happ
  · rename_i mark opened hq
    refine ⟨happ.group, fun mark' opened' hq' => ?_⟩
    simp only [reduceCtorEq, Quote.inside.injEq, or_false] at hq'
    obtain ⟨rfl, rfl⟩ := hq'
    exact happ.quoted _ _ (Or.inr hq)
  · rename_i hq
    split
    · rename_i hm
      refine ⟨happ.group, fun mark' opened' hq' => ?_⟩
      simp only [reduceCtorEq, Quote.inside.injEq, or_false] at hq'
      obtain ⟨rfl, rfl⟩ := hq'
      exact ⟨hm, text, [], rfl, rfl⟩
    · split
      · rename_i ho
        subst ho
        refine ⟨fun _ => ?_, by simp [hq]⟩
        by_cases hd : n.depth = 0
        · exact ⟨text, [], rfl, if_pos hd⟩
        · obtain ⟨before, after, heq, hpos⟩ := happ.group hd
          exact ⟨before, after, heq, (if_neg hd).trans hpos⟩
      · split
        · refine ⟨fun hd => happ.group ?_, by simp [hq]⟩
          simp only at hd
          omega
        · exact happ

/-- What is open at the end of a text is what is wrong with it. -/
theorem Placed.pointsInto_fault (h : n.Placed text) (hd : n.depth ≠ 0) :
    (n.fault (width text)).PointsInto text := by
  have hunterminated : ∀ {mark opened},
      n.quote = .inside mark opened ∨ n.quote = .escaped mark opened →
      Fault.PointsInto ⟨.unterminatedString, ⟨opened, width text⟩⟩ text := by
    intro mark opened hq
    obtain ⟨hm, before, after, htext, hpos⟩ := h.quoted mark opened hq
    refine ⟨before, mark :: after, [], by simp [htext], ?_, rfl, mark, after, hm, rfl⟩
    rw [Span.covering, hpos, htext, width_append]
  unfold fault
  split
  · obtain ⟨before, after, htext, hpos⟩ := h.group hd
    rw [hpos]
    exact .intro (by simpa using htext) rfl
  · rename_i hq
    exact hunterminated (Or.inl hq)
  · rename_i hq
    exact hunterminated (Or.inr hq)

theorem Placed.pointsInto_of_closeFrom {fault : Fault} : ∀ {cs : List Char} {n : Nesting}
    {text : List Char}, n.Placed text → n.depth ≠ 0 →
    closeFrom n (width text) cs = .error fault → fault.PointsInto (text ++ cs)
  | [], n, text, hn, hd, h => by
    rw [closeFrom, Except.error.injEq] at h
    rw [← h, List.append_nil]
    exact hn.pointsInto_fault hd
  | c :: cs, n, text, hn, hd, h => by
    rw [closeFrom] at h
    split at h
    · simp at h
    · rename_i hclear
      have hpos : width text + c.utf8Size = width (text ++ [c]) := by simp
      rw [map_eq_error, hpos] at h
      have ih := (hn.step c).pointsInto_of_closeFrom (depth_step_ne_zero hd hclear) h
      simpa using ih

/-- **A parenthesis without its partner**: it is named itself, or a quoted text
behind it that has no end. -/
theorem pointsInto_of_close {before inner : List Char} {fault : Fault}
    (h : close (width before) inner = .error fault) :
    fault.PointsInto (before ++ '(' :: inner) := by
  have hplaced : Placed { depth := 1, opened := width before } (before ++ ['(']) :=
    ⟨fun _ => ⟨before, [], rfl, rfl⟩, by simp⟩
  have hpos : width before + 1 = width (before ++ ['(']) := by simp; rfl
  rw [close, hpos] at h
  simpa using hplaced.pointsInto_of_closeFrom (by simp) h

end Nesting

/-! ### Segments -/

/-- The reader of argument lists, for the lists inside the text: each of its
faults points into the text, if what the list holds is closed. -/
def Arg.FaultsPoint (text : List Char)
    (arguments : Nat → List Char → Except Fault (List Arg)) : Prop :=
  ∀ before inside after fault, text = before ++ '(' :: inside ++ ')' :: after →
    Pass.closes {} inside = true → arguments (width before) inside = .error fault →
    fault.PointsInto text

/-- The arguments of a segment stand in parentheses in the text, and are closed. -/
def RawSegment.Placed (s : RawSegment) (text : List Char) : Prop :=
  ∀ inside ∈ s.inside, ∃ before after, text = before ++ '(' :: inside ++ ')' :: after ∧
    s.opened = width before ∧ Pass.closes {} inside = true

theorem Scan.traverse_eq_error {α β : Type} {f : α → Except Fault β} {fault : Fault} :
    ∀ {s : Scan α}, s.traverse f = .error fault →
      (∃ a ∈ s.items, f a = .error fault) ∨ s.fault = some fault
  | ⟨[], none⟩, h => by simp [traverse, pure, Except.pure, bind, Except.bind] at h
  | ⟨[], some f⟩, h => by
    simp only [traverse, List.mapM_nil, pure, Except.pure, bind, Except.bind,
      Except.error.injEq] at h
    exact Or.inr (congrArg some h)
  | ⟨a :: items, last⟩, h => by
    have hcons : (cons a ⟨items, last⟩).traverse f = .error fault := h
    rw [traverse_cons] at hcons
    cases ha : f a with
    | error e =>
      rw [ha] at hcons
      cases hcons
      exact Or.inl ⟨a, List.mem_cons_self, ha⟩
    | ok b =>
      rw [ha] at hcons
      cases hrest : Scan.traverse f ⟨items, last⟩ with
      | ok bs => simp [hrest, Except.bind, Except.map] at hcons
      | error e =>
        simp only [hrest, Except.bind, Except.map, Except.error.injEq] at hcons
        subst hcons
        obtain ⟨b, hb, hfault⟩ | hfault := traverse_eq_error hrest
        · exact Or.inl ⟨b, List.mem_cons_of_mem _ hb, hfault⟩
        · exact Or.inr hfault

section

variable {text before cs after : List Char} (htext : text = before ++ cs ++ after)

include htext

theorem RawSegment.pointsInto_misplaced
    (h : before.getLast? = some '.' ∨ (cs.head? ≠ some '.' ∧ ¬ cs.all isBlank = true)) :
    (misplaced (width before) cs).PointsInto text := by
  -- without a dot before it, an empty segment would have been a dot or the end
  have hempty : cs.all isBlank = true → Fault.PointsInto ⟨.emptySegment, .empty (width before)⟩
      text := by
    intro hblank
    have hdot : before.getLast? = some '.' := h.resolve_right fun hc => hc.2 hblank
    exact ⟨before, [], cs ++ after, by simp [htext], rfl, hdot, Or.inl rfl⟩
  unfold misplaced
  split
  · exact hempty rfl
  · rename_i c rest
    have hspan : text = before ++ [c] ++ (rest ++ after) := by simp [htext]
    split
    · rename_i hblank
      exact hempty hblank
    · split
      · rename_i hc
        subst hc
        exact .intro hspan ⟨h.resolve_right fun hn => hn.1 rfl, Or.inr rfl⟩
      · rename_i hdot
        split
        · rename_i hc
          subst hc
          exact .intro hspan rfl
        · rename_i hparen
          exact .intro hspan ⟨rfl, hdot, hparen⟩

/-- One segment: its name is missing, or an end up to the end of the tag. -/
theorem RawSegment.pointsInto_of_scanOne {fault : Fault}
    (hopen : Pass.closes {} cs = true ∨ after = [])
    (hstart : before.getLast? = some '.' ∨ (cs.head? ≠ some '.' ∧ ¬ cs.all isBlank = true))
    (h : scanOne (width before) cs = .error fault) : fault.PointsInto text := by
  obtain rfl | ⟨name, inner, hcs, hclose, -⟩ := scanOne_eq_error h
  · exact pointsInto_misplaced htext hstart
  · rcases hopen with hcloses | rfl
    · rw [scanOne_eq_misplaced hcloses h]
      exact pointsInto_misplaced htext hstart
    · rw [← width_append] at hclose
      have hpoints := Nesting.pointsInto_of_close hclose
      rwa [htext, hcs, List.append_nil, ← List.append_assoc]

theorem RawSegment.placed_of_scanOne {s : RawSegment} {more : List Char}
    (h : scanOne (width before) cs = .ok (s, more)) : s.Placed text := by
  intro inside hinside
  refine ⟨before ++ s.name, more ++ after, ?_, ?_, (skips_text h).2 inside hinside⟩
  · rw [htext, eq_text_of_scanOne h, RawSegment.text, Option.mem_def.1 hinside]
    simp
  · rw [opened, start_of_scanOne h, width_append]

end

/-- **The segments of a path**: what is wrong with them points into the text, and
their arguments stand there. -/
theorem RawSegment.pointsInto_of_scan {text before after : List Char} (pos : Nat) (cs : List Char)
    (hpos : pos = width before) (htext : text = before ++ cs ++ after)
    (hopen : Pass.closes {} cs = true ∨ after = [])
    (hstart : before.getLast? = some '.' ∨ (cs.head? ≠ some '.' ∧ ¬ cs.all isBlank = true)) :
    (∀ fault ∈ (scan pos cs).fault, fault.PointsInto text) ∧
      ∀ s ∈ (scan pos cs).items, s.Placed text := by
  fun_induction scan pos cs generalizing before with
  | case1 pos cs fault hone =>
    subst hpos
    refine ⟨?_, by simp [Scan.failed]⟩
    simpa [Scan.failed] using pointsInto_of_scanOne htext hopen hstart hone
  | case2 pos cs s hone =>
    subst hpos
    exact ⟨by simp [Scan.cons, Scan.done],
      by simpa [Scan.cons, Scan.done] using placed_of_scanOne htext hone⟩
  | case3 pos cs s c rest hone hblank =>
    subst hpos
    exact ⟨by simp [Scan.cons, Scan.done],
      by simpa [Scan.cons, Scan.done] using placed_of_scanOne htext hone⟩
  | case4 pos cs s stop rest hone hblank _ =>
    rename_i ih
    subst hpos
    have hplaced := placed_of_scanOne htext hone
    have hcs := eq_text_of_scanOne hone
    have hopen' : Pass.closes {} rest = true ∨ after = [] := by
      refine hopen.imp_left fun hcloses => ?_
      rw [hcs, ((skips_text hone).1 _).1] at hcloses
      exact hcloses
    have hpos' : stop + 1 = width (before ++ s.text ++ ['.']) := by
      simp [stop]
      rfl
    obtain ⟨hfault, hitems⟩ := ih hpos' (by simp [htext, hcs]) hopen' (Or.inl (by simp))
    exact ⟨hfault, List.forall_mem_cons.2 ⟨hplaced, hitems⟩⟩
  | case5 pos cs s stop c rest hone hblank hdot =>
    subst hpos
    have hcs := eq_text_of_scanOne hone
    refine ⟨?_, by simpa [Scan.cons, Scan.failed] using placed_of_scanOne htext hone⟩
    have hmisplaced := @pointsInto_misplaced text (before ++ s.text) (c :: rest) after
      (by simp [htext, hcs]) (Or.inr ⟨by simpa using hdot, hblank⟩)
    rw [width_append] at hmisplaced
    simpa [Scan.cons, Scan.failed] using hmisplaced

/-! ### Paths -/

section

variable {text before cs after : List Char}
  {arguments : Nat → List Char → Except Fault (List Arg)}

theorem Segment.pointsInto_of_read (ha : Arg.FaultsPoint text arguments) {s : RawSegment}
    (hs : s.Placed text) {fault : Fault} (h : Segment.read arguments s = .error fault) :
    fault.PointsInto text := by
  cases hinside : s.inside with
  | none => simp [Segment.read, hinside] at h
  | some inside =>
    simp only [Segment.read, hinside, map_eq_error] at h
    obtain ⟨before, after, htext, hopened, hcloses⟩ := hs inside hinside
    rw [hopened] at h
    exact ha before inside after fault htext hcloses h

/-- **A path**, which is the whole text or a reference in it. -/
theorem Path.pointsInto_of_read (ha : Arg.FaultsPoint text arguments)
    (htext : text = before ++ cs ++ after)
    (hwhole : before = [] ∧ after = [] ∨
      Pass.closes {} cs = true ∧ Stops isBlank cs ∧ cs ≠ [])
    {fault : Fault} (h : Path.read arguments (width before) cs = .error fault) :
    fault.PointsInto text := by
  have hsplit : cs.takeWhile isBlank ++ cs.dropWhile isBlank = cs :=
    List.takeWhile_append_dropWhile
  have hblanks := blanks_takeWhile cs
  unfold Path.read at h
  dsimp only at h
  rw [← width_append] at h
  split at h
  · rename_i hd
    cases h
    rcases hwhole with ⟨rfl, rfl⟩ | ⟨-, hstops, hne⟩
    · rw [hd, List.append_nil] at hsplit
      exact .intro htext ⟨rfl, rfl, hsplit ▸ hblanks⟩
    · rw [dropWhile_stops hstops] at hd
      exact absurd hd hne
  · rename_i c rest hd
    rw [hd] at hsplit
    have hplace : text = before ++ cs.takeWhile isBlank ++ (c :: rest) ++ after := by
      rw [htext, List.append_assoc before (cs.takeWhile isBlank), hsplit]
    have hopen : Pass.closes {} (c :: rest) = true ∨ after = [] := by
      refine hwhole.symm.imp (fun hin => ?_) (·.2)
      rw [← hd, dropWhile_stops hin.2.1]
      exact hin.1
    split at h
    · rename_i hc
      split at h
      · simp at h
      · subst hc
        cases h
        have hspan : text = before ++ cs.takeWhile isBlank ++ ['.'] ++ (rest ++ after) := by
          simp [hplace]
        exact .intro hspan rfl
    · rename_i hdot
      rw [map_eq_error] at h
      have hc : isBlank c = false := by
        have hstops := stops_dropWhile isBlank cs
        rw [hd] at hstops
        exact stops_cons.1 hstops
      obtain ⟨hfault, hitems⟩ := RawSegment.pointsInto_of_scan _ _ rfl hplace hopen
        (Or.inr ⟨by simpa using hdot, by simp [hc]⟩)
      obtain ⟨s, hs, hread⟩ | hscan := Scan.traverse_eq_error h
      · exact Segment.pointsInto_of_read ha (hitems s hs) hread
      · exact hfault fault hscan

end

/-! ### Arguments -/

theorem Written.ends_of_reach {pos : Nat} {cs before after after' : List Char}
    (hreach : Nesting.reach pos cs = .ok (before, after'))
    (htext : cs = trimEnd before ++ after) : Ends after := by
  have hafter := eq_blankEnd_append hreach htext
  have hcut := (Nesting.skips_of_reach hreach).2
  rw [Ends, hafter, dropWhile_append_stops (blanks_blankEnd _) (stops_of_cut hcut)]
  rcases hcut with rfl | ⟨_, rfl⟩ <;> simp

/-- Where something else than a comma stands behind an argument, the argument is
a literal. -/
theorem Written.isLiteral_of_scan {pos : Nat} {c : Char} {rest after : List Char} {w : Written}
    (h : scan pos c rest = .ok (w, after)) (hends : ¬ Ends after) : IsLiteral w.text := by
  obtain ⟨body, rfl, hm, hclose⟩ | ⟨n, rfl, hn⟩ | ⟨gap, inner, inside, rfl, hlist, hclose⟩ |
    ⟨before, after', rfl, -, -, hstart, hreach⟩ := scan_cases h
  · exact .quoted hm (Quoted.body_of_close hclose)
  · exact .number (Numeral.proper_of_scan? hn)
  · have hlast := Nesting.closesLast_of_closeFrom (by simp) hclose
    have hshape : text (.list gap inside) = listWord ++ gap ++ '(' :: (inside ++ [')']) := by
      simp [text]
    rw [hshape]
    exact .list (blanks_of_listOpening? hlist) hlast
  · exact absurd (ends_of_reach hreach (eq_text_of_scan h)) hends

theorem OpensArgument.append {before seps : List Char} (h : OpensArgument before)
    (hseps : Separators seps) : OpensArgument (before ++ seps) := by
  rcases List.eq_nil_or_concat seps with rfl | ⟨seps, c, rfl⟩
  · rwa [List.append_nil]
  · exact ⟨c, by simp, Or.inr (hseps c (by simp))⟩

/-- An argument that has been cut out of a list stands in the text as an argument
does. -/
def Token.Placed (t : Token) (text : List Char) : Prop :=
  t.written.Checked ∧ ∃ before after, text = before ++ t.text ++ after ∧ t.start = width before ∧
    OpensArgument before ∧ EndsArgument after

section

variable {pos : Nat} {cs rest behind : List Char} {c : Char} {w : Written}
  (hcs : cs.dropWhile Token.isSeparator = c :: rest)

include hcs

theorem Token.eq_of_scan {text before after : List Char} (htext : text = before ++ cs ++ after)
    (hw : Written.scan pos c rest = .ok (w, behind)) :
    text = before ++ cs.takeWhile isSeparator ++ w.text ++
      (behind.takeWhile isBlank ++ (behind.dropWhile isBlank ++ after)) := by
  have hsplit : cs.takeWhile isSeparator ++ (w.text ++ behind) = cs := by
    rw [← Written.eq_text_of_scan hw, ← hcs, List.takeWhile_append_dropWhile]
  rw [← List.append_assoc (behind.takeWhile isBlank), List.takeWhile_append_dropWhile,
    ← List.append_assoc, List.append_assoc before, List.append_assoc before, List.append_assoc _
    w.text, hsplit]
  exact htext

theorem Token.closes_of_scan {more : List Char} (hcloses : Pass.closes {} cs = true)
    (hw : Written.scan (pos + width (cs.takeWhile isSeparator)) c rest = .ok (w, behind))
    (hd : behind.dropWhile isBlank = ',' :: more) : Pass.closes {} more = true := by
  have hends : Written.Ends behind := by
    rw [Written.Ends, hd]
    simp
  rw [(located_of_scan hcs hw hends).1, hd] at hcloses
  exact hcloses

end

/-- **The arguments of a list**: what is wrong between them points into the text,
and they stand there. -/
theorem Token.pointsInto_of_scan {text before after : List Char} (pos : Nat) (cs : List Char)
    (hpos : pos = width before) (htext : text = before ++ cs ++ ')' :: after)
    (hbefore : OpensArgument before) (hcloses : Pass.closes {} cs = true) :
    (∀ fault ∈ (scan pos cs).fault, fault.PointsInto text) ∧
      ∀ t ∈ (scan pos cs).items, t.Placed text := by
  have hopens := hbefore.append (separators_takeWhile cs)
  have hstart : pos + width (cs.takeWhile isSeparator) =
    width (before ++ cs.takeWhile isSeparator) := by rw [hpos, width_append]
  fun_induction scan pos cs generalizing before with
  | case1 => simp [Scan.done]
  | case2 pos cs start c rest hcs fault =>
    rename_i hw
    rw [(located_dropWhile 0 cs).1, hcs] at hcloses
    obtain ⟨rfl, hdot, hparen⟩ := Written.scan_eq_error hcloses hw
    have hsplit : cs.takeWhile isSeparator ++ c :: rest = cs := by
      rw [← hcs, List.takeWhile_append_dropWhile]
    have hplace : text = before ++ cs.takeWhile isSeparator ++ (c :: rest) ++ ')' :: after := by
      rw [htext, List.append_assoc before (cs.takeWhile isSeparator), hsplit]
    have hspan : text = before ++ cs.takeWhile isSeparator ++ [c] ++ (rest ++ ')' :: after) := by
      simp [hplace]
    have hpoints : Fault.PointsInto ⟨.unexpectedChar c, .char start c⟩ text := by
      rw [show start = _ from hstart]
      exact .intro hspan ⟨rfl, hdot, hparen⟩
    exact ⟨by simpa [Scan.failed] using hpoints, by simp [Scan.failed]⟩
  | case3 pos cs start c rest hcs w behind hw =>
    rename_i hd
    have hplace := eq_of_scan hcs htext hw
    have hplaced : Placed ⟨start, w⟩ text :=
      ⟨Written.checked_of_scan hw, _, _, hplace, hstart, hopens,
        _, ')', after, by rw [hd]; rfl, blanks_takeWhile behind, Or.inr rfl⟩
    exact ⟨by simp [Scan.cons, Scan.done], by simpa [Scan.cons, Scan.done] using hplaced⟩
  | case4 pos cs start c rest hcs w behind hw stop more hd =>
    rename_i ih
    have hplace := eq_of_scan hcs htext hw
    have hplaced : Placed ⟨start, w⟩ text :=
      ⟨Written.checked_of_scan hw, _, _, hplace, hstart, hopens,
        _, ',', more ++ ')' :: after, by rw [hd]; rfl, blanks_takeWhile behind, Or.inl rfl⟩
    have hstop : stop + 1 = width (before ++ cs.takeWhile isSeparator ++ w.text ++
        behind.takeWhile isBlank ++ [',']) := by
      rw [width_append _ [','], width_append _ (behind.takeWhile isBlank), width_append _ w.text,
        ← hstart]
      rfl
    have hbefore' : OpensArgument (before ++ cs.takeWhile isSeparator ++ w.text ++
        behind.takeWhile isBlank ++ [',']) := ⟨',', by simp, Or.inr rfl⟩
    have hmore := closes_of_scan hcs hcloses hw hd
    rw [hd] at hplace
    obtain ⟨hfault, hitems⟩ := ih hstop (by rw [hplace]; simp) hbefore' hmore
      (hbefore'.append (separators_takeWhile more)) (by rw [hstop, ← width_append])
    exact ⟨hfault, List.forall_mem_cons.2 ⟨hplaced, hitems⟩⟩
  | case5 pos cs start c rest hcs w behind hw stop d more hd =>
    rename_i hcomma
    have hplace := eq_of_scan hcs htext hw
    have hliteral : IsLiteral w.text := by
      refine Written.isLiteral_of_scan hw fun hends => hcomma (hends d ?_)
      rw [hd]
      rfl
    have hblank : isBlank d = false := by
      have hstops := stops_dropWhile isBlank behind
      rw [hd] at hstops
      exact stops_cons.1 hstops
    have hstop : stop = width (before ++ cs.takeWhile isSeparator ++ w.text ++
        behind.takeWhile isBlank) := by
      rw [width_append _ (behind.takeWhile isBlank), width_append _ w.text, ← hstart]
    rw [hd] at hplace
    have hspan : text = before ++ cs.takeWhile isSeparator ++ w.text ++ behind.takeWhile isBlank ++
        [d] ++ (more ++ ')' :: after) := by simp [hplace]
    have hpoints : Fault.PointsInto ⟨.expectedSeparator, .char stop d⟩ text := by
      rw [hstop]
      exact .intro hspan ⟨⟨d, rfl, by simp [isSeparator, hblank, hcomma]⟩, _, _, _, rfl, hopens,
        hliteral, blanks_takeWhile behind⟩
    exact ⟨by simpa [Scan.failed] using hpoints, by simp [Scan.failed]⟩

/-! ### Lists of arguments -/

theorem Numeral.text_of_integer {n : Numeral} (h : n.isDecimal = false) :
    n.text = n.sign.toList ++ n.whole := by
  obtain ⟨sign, whole, fraction, exponent⟩ := n
  simp only [isDecimal, Bool.or_eq_false_iff, Option.isSome_eq_false_iff,
    Option.isNone_iff_eq_none] at h
  obtain ⟨rfl, rfl⟩ := h
  simp [text]

theorem Arg.pointsInto_of_read {text : List Char}
    {arguments : Nat → List Char → Except Fault (List Arg)} (ha : Arg.FaultsPoint text arguments)
    {t : Token} (ht : t.Placed text) {fault : Fault} (h : Arg.read arguments t = .error fault) :
    fault.PointsInto text := by
  obtain ⟨start, w⟩ := t
  obtain ⟨hchecked, before, after, htext, hstart, hopens, hends⟩ := ht
  simp only [Token.text] at htext hstart
  cases w with
  | quoted mark body => simp [Arg.read] at h
  | number n =>
    simp only [Arg.read] at h
    split at h
    · simp at h
    · rename_i hdecimal
      split at h
      · simp at h
      · rename_i hnone
        cases h
        have hinteger : n.isDecimal = false := by simpa using hdecimal
        have hrange : ¬ (-2 ^ 63 ≤ n.wholeValue ∧ n.wholeValue < 2 ^ 63) := by
          simpa [Numeral.toInt64?] using hnone
        rw [Token.span, Token.text, hstart]
        exact .intro htext ⟨hopens, hends, n, hchecked, hinteger, Numeral.text_of_integer hinteger,
          hrange⟩
  | list gap inside =>
    simp only [Arg.read, map_eq_error] at h
    have hopened : Written.listOpened start gap = width (before ++ Written.listWord ++ gap) := by
      rw [Written.listOpened, hstart, width_append, width_append]
    rw [hopened] at h
    refine ha _ inside after fault ?_ hchecked h
    rw [htext, Written.text]
    simp
  | reference name =>
    simp only [Arg.read, map_eq_error] at h
    rw [hstart] at h
    exact Path.pointsInto_of_read ha htext (Or.inr hchecked) h

/-- **Argument lists point into the text**, however many more of them may be open
inside. -/
theorem Arg.faultsPoint_readList (text : List Char) : ∀ levels,
    Arg.FaultsPoint text (Arg.readList levels)
  | 0 => fun before inside after fault htext _ h => by
    cases h
    have hspan : text = before ++ ['('] ++ (inside ++ ')' :: after) := by simp [htext]
    exact .intro hspan rfl
  | levels + 1 => fun before inside after fault htext hcloses h => by
    have hopens : OpensArgument (before ++ ['(']) := ⟨'(', by simp, Or.inl rfl⟩
    have hpos : width before + 1 = width (before ++ ['(']) := by
      rw [width_append]
      rfl
    have hplace : text = before ++ ['('] ++ inside ++ ')' :: after := by simp [htext]
    obtain ⟨hfault, hitems⟩ := Token.pointsInto_of_scan _ inside hpos hplace hopens hcloses
    obtain ⟨t, ht, hread⟩ | hscan := Scan.traverse_eq_error h
    · exact Arg.pointsInto_of_read (faultsPoint_readList text levels) (hitems t ht) hread
    · exact hfault fault hscan

/-! ### Tags -/

theorem Path.parse_eq_error {tag : String} {e : SyntaxError} (h : Path.parse tag = .error e) :
    ∃ fault, Path.read (Arg.readList maxNesting) 0 tag.toList = .error fault ∧
      e = fault.within tag := by
  unfold Path.parse at h
  cases hread : Path.read (Arg.readList maxNesting) 0 tag.toList with
  | ok p => simp [hread, Except.mapError] at h
  | error fault =>
    rw [hread] at h
    exact ⟨fault, rfl, (Except.error.inj h).symm⟩

/-- **Every error points at the text it names.** A tag is said to be empty
exactly when it is all white space. Any error is an error of the tag itself and
spans a piece of it, which is what the error names: a dot, a parenthesis, a
character that cannot stand there, a quoted text up to the end, an integer that
does not fit. Nothing is assumed of how deep in the tag the error was met. -/
theorem Path.parse_error_names (tag : String) :
    ((∃ e, Path.parse tag = .error e ∧ e.cause = .emptyPath) ↔ Blanks tag.toList) ∧
      ∀ e, Path.parse tag = .error e → e.source = tag ∧ ∃ before spanned after,
        tag.toList = before ++ spanned ++ after ∧ e.span = .covering (width before) spanned ∧
        e.cause.Names before spanned after := by
  have hnames : ∀ e, Path.parse tag = .error e → e.source = tag ∧ ∃ before spanned after,
      tag.toList = before ++ spanned ++ after ∧ e.span = .covering (width before) spanned ∧
      e.cause.Names before spanned after := by
    intro e he
    obtain ⟨fault, hread, rfl⟩ := Path.parse_eq_error he
    have hfaults := Arg.faultsPoint_readList tag.toList maxNesting
    have hwhole : tag.toList = [] ++ tag.toList ++ [] := by simp
    exact ⟨rfl, Path.pointsInto_of_read hfaults hwhole (Or.inl ⟨rfl, rfl⟩) hread⟩
  refine ⟨⟨?_, fun hblanks => ?_⟩, hnames⟩
  · rintro ⟨e, he, hcause⟩
    obtain ⟨-, before, spanned, after, htext, -, hnamed⟩ := hnames e he
    rw [hcause] at hnamed
    obtain ⟨rfl, rfl, hspanned⟩ := hnamed
    rwa [htext, List.nil_append, List.append_nil]
  · have hnil : tag.toList.dropWhile isBlank = [] := List.dropWhile_eq_nil_iff.2 hblanks
    have hread : Path.read (Arg.readList maxNesting) 0 tag.toList =
        .error ⟨.emptyPath, .covering 0 tag.toList⟩ := by simp only [Path.read, hnil]
    exact ⟨⟨.emptyPath, .covering 0 tag.toList, tag⟩, by rw [Path.parse, hread]; rfl, rfl⟩

/-- An error in an argument of an argument, behind a character of two bytes. -/
theorem Path.parse_error_names_nested :
    Path.parse "é(g(1 2))" = .error ⟨.expectedSeparator, ⟨7, 8⟩, "é(g(1 2))"⟩ ∧
    ∃ before spanned after, "é(g(1 2))".toList = before ++ spanned ++ after ∧
      (⟨7, 8⟩ : Span) = .covering (width before) spanned ∧
      SyntaxError.Cause.expectedSeparator.Names before spanned after := by
  have hparse : Path.parse "é(g(1 2))" =
      .error ⟨.expectedSeparator, ⟨7, 8⟩, "é(g(1 2))"⟩ := by
    -- whether two paths are equal is not decidable, so what is read is left out
    have hkind : (Path.parse "é(g(1 2))").map (fun _ => ()) =
        .error ⟨.expectedSeparator, ⟨7, 8⟩, "é(g(1 2))"⟩ := by decide +kernel
    exact map_eq_error.1 hkind
  exact ⟨hparse, ((Path.parse_error_names _).2 _ hparse).2⟩

end TagScope
