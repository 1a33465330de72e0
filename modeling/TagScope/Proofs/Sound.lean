/-
# What is read is spelled

Whatever the reader makes of a text, the text is a spelling of it. Each scanner
keeps the characters it takes, so the text falls into the parts that the
grammar names, and what was checked on the way is what the grammar asks of
them. The reader of argument lists is taken as given for the parts inside
(`Arg.SoundWithin`); the last theorem ties it to itself, level by level.

Key definitions: `Arg.SoundWithin`.
Key theorems: `Path.tagSpelling_of_read`, `Arg.spelling_of_read`, `Arg.soundWithin_readList`.
-/
import TagScope.Proofs.Numerals

namespace TagScope

/-! ### Scans -/

namespace Scan

variable {α β : Type} {f : α → Except Fault β}

theorem traverse_done : (done : Scan α).traverse f = .ok [] := rfl

theorem traverse_failed (fault : Fault) : (failed fault : Scan α).traverse f = .error fault := rfl

theorem traverse_cons (a : α) (s : Scan α) : (cons a s).traverse f =
    (f a).bind fun b => (s.traverse f).map (b :: ·) := by
  obtain ⟨items, fault⟩ := s
  simp only [traverse, cons, List.mapM_cons, bind, pure, Except.pure]
  cases f a with
  | error e => rfl
  | ok b => cases List.mapM f items <;> cases fault <;> rfl

theorem traverse_cons_eq_ok {a : α} {s : Scan α} {bs : List β} :
    (cons a s).traverse f = .ok bs ↔
      ∃ b rest, f a = .ok b ∧ s.traverse f = .ok rest ∧ bs = b :: rest := by
  rw [traverse_cons]
  cases f a with
  | error e => simp [Except.bind]
  | ok b => cases s.traverse f <;> simp [Except.bind, Except.map, eq_comm]

end Scan

theorem map_eq_ok {ε α β : Type} {f : α → β} {x : Except ε α} {b : β} :
    x.map f = .ok b ↔ ∃ a, x = .ok a ∧ f a = b := by
  cases x <;> simp [Except.map]

theorem map_eq_error {ε α β : Type} {f : α → β} {x : Except ε α} {e : ε} :
    x.map f = .error e ↔ x = .error e := by
  cases x <;> simp [Except.map]

/-! ### Quoted texts -/

namespace Quoted

theorem decode_cons {c : Char} (h : c ≠ '\\') (cs : List Char) :
    decode (c :: cs) = c :: decode cs := by
  rw [decode.eq_def]
  exact if_neg h

theorem decode_escaped (c : Char) (cs : List Char) :
    decode ('\\' :: c :: cs) = unescape c :: decode cs := by
  rw [decode.eq_def]
  exact if_pos rfl

theorem close_mark (mark : Char) (cs : List Char) : close mark (mark :: cs) = some ([], cs) := by
  rw [close.eq_def]
  exact if_pos rfl

theorem close_cons {mark c : Char} (hm : c ≠ mark) (hb : c ≠ '\\') (cs : List Char) :
    close mark (c :: cs) = (close mark cs).map fun (body, after) => (c :: body, after) := by
  rw [close.eq_def]
  exact (if_neg hm).trans (if_neg hb)

theorem close_escaped {mark : Char} (hm : mark ≠ '\\') (c : Char) (cs : List Char) :
    close mark ('\\' :: c :: cs) =
      (close mark cs).map fun (body, after) => ('\\' :: c :: body, after) := by
  rw [close.eq_def]
  exact (if_neg hm.symm).trans (if_pos rfl)

theorem body_of_close {mark : Char} {cs body after : List Char}
    (h : close mark cs = some (body, after)) : Body mark body (decode body) := by
  fun_induction close mark cs generalizing body after with
  | case1 => simp at h
  | case2 rest =>
    simp only [Option.some.injEq, Prod.mk.injEq] at h
    rw [← h.1]
    exact .nil
  | case3 => simp at h
  | case4 hm d rest ih =>
    obtain ⟨⟨body', after'⟩, hc, heq⟩ := Option.map_eq_some_iff.1 h
    simp only [Prod.mk.injEq] at heq
    rw [← heq.1, decode_escaped]
    exact .escaped (ih hc)
  | case5 c rest hm hb ih =>
    obtain ⟨⟨body', after'⟩, hc, heq⟩ := Option.map_eq_some_iff.1 h
    simp only [Prod.mk.injEq] at heq
    rw [← heq.1, decode_cons hb]
    exact .plain hm hb (ih hc)

theorem close_of_body {mark : Char} {body text : List Char} (hm : isMark mark = true)
    (h : Body mark body text) (after : List Char) :
    close mark (body ++ mark :: after) = some (body, after) := by
  have hs : mark ≠ '\\' := by rintro rfl; simp [isMark] at hm
  induction h with
  | nil => exact close_mark mark after
  | plain hc hb _ ih => rw [List.cons_append, close_cons hc hb, ih]; rfl
  | escaped _ ih => rw [List.cons_append, List.cons_append, close_escaped hs, ih]; rfl

theorem decode_of_body {mark : Char} {body text : List Char} (h : Body mark body text) :
    decode body = text := by
  induction h with
  | nil => rfl
  | plain _ hb _ ih => rw [decode_cons hb, ih]
  | escaped _ ih => rw [decode_escaped, ih]

end Quoted

/-! ### Segments -/

theorem Segment.ChainSpelling.lead {cs : List Char} {ss : List Segment}
    (h : Segment.ChainSpelling cs ss) : ∃ s rest name more, ss = s :: rest ∧ IsName name ∧
      s.name = String.ofList name ∧ cs = name ++ more ∧ (∀ c ∈ more.head?, c = '(' ∨ c = '.') ∧
      (s.isCall = true ↔ more.head? = some '(') := by
  have one : ∀ {cs : List Char} {s : Segment}, Segment.Spelling cs s → ∀ more : List Char,
      (∀ c ∈ more.head?, c = '.') → ∃ name more', IsName name ∧ s.name = String.ofList name ∧
      cs ++ more = name ++ more' ∧ (∀ c ∈ more'.head?, c = '(' ∨ c = '.') ∧
      (s.isCall = true ↔ more'.head? = some '(') := by
    intro cs s hs more hmore
    cases hs with
    | bare hn =>
      refine ⟨cs, more, hn, rfl, rfl, fun c hc => Or.inr (hmore c hc), ?_⟩
      simp only [Segment.isCall, Bool.false_eq_true, false_iff]
      exact fun h => absurd (hmore '(' h) (by decide)
    | @call name inside args hn _ =>
      exact ⟨name, '(' :: inside ++ [')'] ++ more, hn, rfl, by simp, by simp, by simp [isCall]⟩
  cases h with
  | @last _ s hs =>
    obtain ⟨name, more, hn, hname, heq, hhead, hcall⟩ := one hs [] (by simp)
    exact ⟨s, [], name, more, rfl, hn, hname, by simpa using heq, hhead, hcall⟩
  | @dot text rest s ss hs _ =>
    obtain ⟨name, more, hn, hname, heq, hhead, hcall⟩ := one hs ('.' :: rest) (by simp)
    exact ⟨s, ss, name, more, rfl, hn, hname, heq, hhead, hcall⟩

/-- A reader of argument lists takes spellings only, and at most `levels`
lists inside one another. -/
def Arg.SoundWithin (levels : Nat) (arguments : Nat → List Char → Except Fault (List Arg)) : Prop :=
  ∀ opened inside as, arguments opened inside = .ok as →
    Arg.ListSpelling inside as ∧ Arg.nestingAll as < levels

section

variable {levels : Nat} {arguments : Nat → List Char → Except Fault (List Arg)}

theorem RawSegment.isName_of_scanOne {pos : Nat} {cs after : List Char} {s : RawSegment}
    (h : scanOne pos cs = .ok (s, after)) : IsName s.name := by
  unfold scanOne at h
  dsimp only at h
  split at h
  · simp at h
  · rename_i hne
    have hn : IsName (cs.takeWhile isNameChar) :=
      ⟨by simpa using hne, fun c hc => List.mem_takeWhile_imp hc⟩
    split at h
    · obtain ⟨⟨inside, after'⟩, -, heq⟩ := map_eq_ok.1 h
      simp only [Prod.mk.injEq] at heq
      rw [← heq.1]
      exact hn
    · simp only [Except.ok.injEq, Prod.mk.injEq] at h
      rw [← h.1]
      exact hn

theorem Segment.spelling_of_read (ha : Arg.SoundWithin levels arguments) {raw : RawSegment}
    {s : Segment} (hn : IsName raw.name) (h : Segment.read arguments raw = .ok s) :
    Segment.Spelling raw.text s ∧ s.nesting ≤ levels := by
  obtain ⟨start, name, inside⟩ := raw
  cases inside with
  | none =>
    simp only [Segment.read, Except.ok.injEq] at h
    subst h
    refine ⟨?_, by simp [Segment.nesting]⟩
    simpa [RawSegment.text] using Segment.Spelling.bare hn
  | some inside =>
    obtain ⟨as, has, rfl⟩ := map_eq_ok.1 h
    obtain ⟨hs, hl⟩ := ha _ _ _ has
    refine ⟨?_, by rw [Segment.nesting]; exact hl⟩
    simpa [RawSegment.text] using Segment.Spelling.call hn hs

/-- The segments that are read, up to white space at the end. -/
theorem Segment.chainSpelling_of_scan (ha : Arg.SoundWithin levels arguments) (pos : Nat)
    (cs : List Char) {ss : List Segment}
    (h : (RawSegment.scan pos cs).traverse (Segment.read arguments) = .ok ss) :
    ∃ core after, cs = core ++ after ∧ Blanks after ∧ Segment.ChainSpelling core ss ∧
      Segment.nestingAll ss ≤ levels := by
  fun_induction RawSegment.scan pos cs generalizing ss with
  | case1 pos cs fault hone =>
    rw [Scan.traverse_failed] at h
    simp at h
  | case2 pos cs raw hone =>
    obtain ⟨s, rest, hs, hrest, rfl⟩ := Scan.traverse_cons_eq_ok.1 h
    rw [Scan.traverse_done, Except.ok.injEq] at hrest
    subst hrest
    obtain ⟨hsp, hl⟩ := Segment.spelling_of_read ha (RawSegment.isName_of_scanOne hone) hs
    refine ⟨raw.text, [], RawSegment.eq_text_of_scanOne hone, by simp [Blanks], .last hsp, ?_⟩
    simpa [Segment.nestingAll] using hl
  | case3 pos cs raw c rest hone hblank =>
    obtain ⟨s, tail, hs, hrest, rfl⟩ := Scan.traverse_cons_eq_ok.1 h
    rw [Scan.traverse_done, Except.ok.injEq] at hrest
    subst hrest
    obtain ⟨hsp, hl⟩ := Segment.spelling_of_read ha (RawSegment.isName_of_scanOne hone) hs
    refine ⟨raw.text, c :: rest, RawSegment.eq_text_of_scanOne hone, List.all_eq_true.1 hblank,
      .last hsp, ?_⟩
    simpa [Segment.nestingAll] using hl
  | case4 pos cs raw stop rest hone hblank _ =>
    rename_i ih
    obtain ⟨s, tail, hs, hrest, rfl⟩ := Scan.traverse_cons_eq_ok.1 h
    obtain ⟨hsp, hl⟩ := Segment.spelling_of_read ha (RawSegment.isName_of_scanOne hone) hs
    obtain ⟨core, after, rfl, hafter, hchain, hl'⟩ := ih hrest
    refine ⟨raw.text ++ '.' :: core, after, ?_, hafter, .dot hsp hchain, ?_⟩
    · rw [RawSegment.eq_text_of_scanOne hone]
      simp
    · rw [Segment.nestingAll]
      exact Nat.max_le.2 ⟨hl, hl'⟩
  | case5 pos cs raw c rest hone _ _ =>
    obtain ⟨s, tail, hs, hrest, rfl⟩ := Scan.traverse_cons_eq_ok.1 h
    rw [Scan.traverse_failed] at hrest
    simp at hrest

/-- **A path that is read is spelled.** -/
theorem Path.tagSpelling_of_read (ha : Arg.SoundWithin levels arguments) {pos : Nat}
    {cs : List Char} {p : Path} (h : Path.read arguments pos cs = .ok p) :
    Path.TagSpelling cs p ∧ p.nesting ≤ levels := by
  have hcs : cs.takeWhile isBlank ++ cs.dropWhile isBlank = cs := List.takeWhile_append_dropWhile
  have hbefore : Blanks (cs.takeWhile isBlank) := fun _ hc => List.mem_takeWhile_imp hc
  unfold Path.read at h
  dsimp only at h
  split at h
  · simp at h
  · rename_i c rest hd
    rw [hd] at hcs
    split at h
    · rename_i hc
      subst hc
      split at h
      · rename_i hblank
        simp only [Except.ok.injEq] at h
        subst h
        exact ⟨⟨_, ['.'], rest, by simp [hcs], hbefore, List.all_eq_true.1 hblank, .current⟩,
          by simp [Path.nesting]⟩
      · simp at h
    · obtain ⟨ss, hss, rfl⟩ := map_eq_ok.1 h
      obtain ⟨core, after, heq, hafter, hchain, hl⟩ := Segment.chainSpelling_of_scan ha _ _ hss
      rw [heq, ← List.append_assoc] at hcs
      exact ⟨⟨_, core, after, hcs.symm, hbefore, hafter, .segments hchain⟩,
        by simpa [Path.nesting] using hl⟩

/-! ### Arguments -/

namespace Written

theorem listOpening?_append {gap inner : List Char} (hg : Blanks gap) :
    listOpening? (listWord ++ gap ++ '(' :: inner) = some (gap, inner) := by
  have hp : listWord.isPrefixOf (listWord ++ gap ++ '(' :: inner) = true := by
    rw [List.append_assoc]
    exact List.isPrefixOf_iff_prefix.2 (List.prefix_append _ _)
  have hd : (listWord ++ gap ++ '(' :: inner).drop listWord.length = gap ++ '(' :: inner := by
    rw [List.append_assoc, List.drop_left]
  have hs : Stops isBlank ('(' :: inner) := stops_cons.2 (by decide)
  rw [listOpening?, hp, hd, dropWhile_append_stops hg hs, takeWhile_append_stops hg hs]
  rfl

theorem blanks_of_listOpening? {cs gap inner : List Char}
    (h : listOpening? cs = some (gap, inner)) : Blanks gap := by
  unfold listOpening? at h
  split at h
  · simp only [Option.some.injEq, Prod.mk.injEq] at h
    rw [← h.1]
    exact fun _ hc => List.mem_takeWhile_imp hc
  · simp at h

/-- The four kinds of arguments, and what has been checked for each. -/
theorem scan_cases {pos : Nat} {c : Char} {rest after : List Char} {w : Written}
    (h : scan pos c rest = .ok (w, after)) :
    (∃ body, w = .quoted c body ∧ Quoted.isMark c = true ∧
      Quoted.close c rest = some (body, after)) ∨
    (∃ n, w = .number n ∧ Numeral.scan? (c :: rest) = some (n, after)) ∨
    (∃ gap inner inside, w = .list gap inside ∧ listOpening? (c :: rest) = some (gap, inner) ∧
      Nesting.close (listOpened pos gap) inner = .ok (inside, after)) ∨
    (∃ before after', w = .reference (trimEnd before) ∧ Numeral.scan? (c :: rest) = none ∧
      listOpening? (c :: rest) = none ∧ startsReference c = true ∧
      Nesting.reach pos (c :: rest) = .ok (before, after')) := by
  unfold scan at h
  split at h
  · rename_i hm
    split at h
    · simp at h
    · rename_i body after' hq
      simp only [Except.ok.injEq, Prod.mk.injEq] at h
      exact Or.inl ⟨body, h.1.symm, hm, by rw [hq, h.2]⟩
  · split at h
    · rename_i n after' hn
      simp only [Except.ok.injEq, Prod.mk.injEq] at h
      exact Or.inr (Or.inl ⟨n, h.1.symm, by rw [hn, h.2]⟩)
    · rename_i hn
      split at h
      · rename_i gap inner hl
        obtain ⟨⟨inside, after'⟩, hc, heq⟩ := map_eq_ok.1 h
        simp only [Prod.mk.injEq] at heq
        exact Or.inr (Or.inr (Or.inl ⟨gap, inner, inside, heq.1.symm, hl, by rw [hc, heq.2]⟩))
      · rename_i hl
        split at h
        · rename_i hs
          obtain ⟨⟨before, after'⟩, hr, heq⟩ := map_eq_ok.1 h
          simp only [Prod.mk.injEq] at heq
          exact Or.inr (Or.inr (Or.inr ⟨before, after', heq.1.symm, hn, hl, hs, hr⟩))
        · split at h <;> simp at h

theorem not_blank_of_startsReference {c : Char} (h : startsReference c = true) :
    isBlank c = false := by
  simp only [startsReference, Bool.or_eq_true, decide_eq_true_eq] at h
  rcases h with (h | rfl) | rfl
  · exact isBlank_of_isNameChar (by simp [isNameChar, h])
  · decide
  · decide

theorem trimEnd_eq_cons {c : Char} (hc : isBlank c = false) (cs : List Char) :
    ∃ more, trimEnd (c :: cs) = c :: more := by
  have happ := trimEnd_append_blankEnd (c :: cs)
  cases ht : trimEnd (c :: cs) with
  | nil =>
    rw [ht, List.nil_append] at happ
    have hmem : c ∈ blankEnd (c :: cs) := by rw [happ]; exact List.mem_cons_self
    rw [blankEnd, List.mem_reverse] at hmem
    rw [List.mem_takeWhile_imp hmem] at hc
    exact absurd hc (by simp)
  | cons d more =>
    rw [ht, List.cons_append, List.cons.injEq] at happ
    exact ⟨more, by rw [happ.1]⟩

theorem eq_nil_of_trimEnd_eq {cs core after : List Char} (h : trimEnd cs = core ++ after)
    (ha : Blanks after) : after = [] := by
  by_contra hne
  have hcs : cs.rdropWhile isBlank = core ++ after := h
  have hlast := List.rdropWhile_last_not isBlank cs (by simp [hcs, hne])
  have hmem : (cs.rdropWhile isBlank).getLast (by simp [hcs, hne]) ∈ after := by
    simp only [hcs]
    rw [List.getLast_append_of_ne_nil _ hne]
    exact List.getLast_mem hne
  exact hlast (ha _ hmem)

end Written

theorem Nesting.reach_eq_cons {pos : Nat} {c : Char} {rest before after : List Char}
    (hc : c ≠ ',') (h : reach pos (c :: rest) = .ok (before, after)) :
    ∃ more, before = c :: more := by
  unfold reach reachFrom at h
  split at h
  · rename_i hcomma
    simp [hc] at hcomma
  · split at h
    · simp at h
    · obtain ⟨⟨more, after'⟩, -, heq⟩ := map_eq_ok.1 h
      simp only [Prod.map, Prod.mk.injEq] at heq
      exact ⟨more, heq.1.symm⟩

/-- A path that stands alone in a text without white space around it. -/
theorem Path.spelling_of_tagSpelling {c : Char} {more cs : List Char} {p : Path}
    (hc : isBlank c = false) (ht : Written.trimEnd cs = c :: more)
    (h : Path.TagSpelling (c :: more) p) : Path.Spelling (c :: more) p := by
  obtain ⟨before, core, after, heq, hbefore, hafter, hcore⟩ := h
  have ha : after = [] := Written.eq_nil_of_trimEnd_eq (ht.trans heq) hafter
  have hb : before = [] := by
    cases before with
    | nil => rfl
    | cons d ds =>
      simp only [List.cons_append, List.cons.injEq] at heq
      rw [heq.1, hbefore d List.mem_cons_self] at hc
      exact absurd hc (by simp)
  rw [heq, ha, hb]
  simpa using hcore

theorem Path.isReference_of_spelling {c : Char} {more rest : List Char} {p : Path}
    (hs : Written.startsReference c = true) (hd : c.isDigit = false)
    (hl : Written.listOpening? (c :: more ++ rest) = none) (h : Path.Spelling (c :: more) p) :
    p.IsReference := by
  cases h with
  | current => trivial
  | @segments _ ss hchain =>
    obtain ⟨s, tail, name, after, rfl, hn, hname, heq, -, hcall⟩ := hchain.lead
    intro s' hs'
    simp only [List.head?_cons, Option.mem_def, Option.some.injEq] at hs'
    subst hs'
    obtain ⟨hne, hchars⟩ := hn
    cases name with
    | nil => exact absurd rfl hne
    | cons d ds =>
      simp only [List.cons_append, List.cons.injEq] at heq
      obtain ⟨rfl, rfl⟩ := heq
      refine ⟨⟨c, ds, by rw [hname, String.toList_ofList], ?_⟩, ?_⟩
      · have hc := hchars c List.mem_cons_self
        have hdot : c ≠ '.' := ne_of_isNameChar hc (by decide)
        simp only [Written.startsReference, hdot, decide_false, Bool.or_false] at hs
        cases ha : isAlphanumeric c <;> simp_all [startsName]
      · rintro ⟨hc, hw⟩
        rw [hname, String.toList_ofList] at hw
        obtain ⟨inner, rfl⟩ : ∃ inner, after = '(' :: inner := by
          have := hcall.1 hc
          cases after with
          | nil => simp at this
          | cons x xs => exact ⟨xs, by simpa using this⟩
        have hopen := @Written.listOpening?_append [] (inner ++ rest) (by simp [Blanks])
        rw [List.append_nil, ← hw] at hopen
        have heq : c :: ds ++ '(' :: (inner ++ rest) = c :: (ds ++ '(' :: inner) ++ rest := by simp
        rw [heq, hl] at hopen
        exact absurd hopen (by simp)

/-- **An argument that is read is spelled.** -/
theorem Arg.spelling_of_read (ha : Arg.SoundWithin levels arguments) {pos : Nat} {c : Char}
    {rest after : List Char} {w : Written} (hw : Written.scan pos c rest = .ok (w, after)) {a : Arg}
    (h : Arg.read arguments ⟨pos, w⟩ = .ok a) : Arg.Spelling w.text a ∧ a.nesting ≤ levels := by
  obtain ⟨body, rfl, hm, hq⟩ | ⟨n, rfl, hn⟩ | ⟨gap, inner, inside, rfl, hl, hc⟩ |
    ⟨before, after', rfl, hn, hl, hs, hr⟩ := Written.scan_cases hw
  · simp only [Arg.read, Except.ok.injEq] at h
    subst h
    exact ⟨.text hm (Quoted.body_of_close hq), by simp [Arg.nesting]⟩
  · have hproper := Numeral.proper_of_scan? hn
    simp only [Arg.read] at h
    split at h
    · rename_i hdec
      simp only [Except.ok.injEq] at h
      subst h
      exact ⟨.decimal hproper hdec (Numeral.ofText?_text hproper), by simp [Arg.nesting]⟩
    · rename_i hdec
      split at h
      · rename_i i hi
        simp only [Except.ok.injEq] at h
        subst h
        exact ⟨.integer hproper (by simpa using hdec) (Numeral.toInt64?_eq_some_iff.1 hi),
          by simp [Arg.nesting]⟩
      · simp at h
  · obtain ⟨items, hitems, rfl⟩ := map_eq_ok.1 h
    obtain ⟨hsp, hlt⟩ := ha _ _ _ hitems
    exact ⟨.list (Written.blanks_of_listOpening? hl) hsp, by rw [Arg.nesting]; exact hlt⟩
  · obtain ⟨p, hp, rfl⟩ := map_eq_ok.1 h
    have hblank := Written.not_blank_of_startsReference hs
    have hcomma : c ≠ ',' := by rintro rfl; revert hs; decide
    obtain ⟨more, rfl⟩ := Nesting.reach_eq_cons hcomma hr
    obtain ⟨name, hname⟩ := Written.trimEnd_eq_cons hblank more
    obtain ⟨htag, hlt⟩ := Path.tagSpelling_of_read ha hp
    have htext : c :: rest = c :: name ++ (Written.blankEnd (c :: more) ++ after') := by
      rw [Nesting.append_of_reach hr, ← hname, ← List.append_assoc,
        Written.trimEnd_append_blankEnd]
    rw [htext] at hl
    rw [hname] at htag
    have hsp := Path.spelling_of_tagSpelling hblank hname htag
    rw [Written.text, hname]
    exact ⟨.reference hsp (Path.isReference_of_spelling hs (Numeral.stops_of_scan?_eq_none hn) hl
      hsp), hlt⟩

theorem Arg.ListSpelling.rest {blanks more : List Char} {as : List Arg} (hb : Blanks blanks)
    (h : Arg.ListSpelling more as) : Arg.RestSpelling (blanks ++ ',' :: more) as := by
  have hsep : ∀ {gap : List Char}, Separators gap → Separators (blanks ++ ',' :: gap) := by
    intro gap hg c hc
    rcases List.mem_append.1 hc with hc | hc
    · simp [Token.isSeparator, hb c hc]
    · rcases List.mem_cons.1 hc with rfl | hc
      · decide
      · exact hg c hc
  cases h with
  | none hg => exact .last (hsep hg)
  | @some gap cs rest a as hg ha hr =>
    have := Arg.RestSpelling.comma (hsep hg) (by simp) ha hr
    simpa using this

theorem Arg.listSpelling_of_scan (ha : Arg.SoundWithin levels arguments) (pos : Nat)
    (cs : List Char) {as : List Arg}
    (h : (Token.scan pos cs).traverse (Arg.read arguments) = .ok as) :
    Arg.ListSpelling cs as ∧ Arg.nestingAll as ≤ levels := by
  have split : ∀ cs : List Char, cs.takeWhile Token.isSeparator ++ cs.dropWhile Token.isSeparator =
      cs := fun _ => List.takeWhile_append_dropWhile
  have gaps : ∀ cs : List Char, Separators (cs.takeWhile Token.isSeparator) :=
    fun _ _ hc => List.mem_takeWhile_imp hc
  have hblank : ∀ cs : List Char, Blanks (cs.takeWhile isBlank) :=
    fun _ _ hc => List.mem_takeWhile_imp hc
  fun_induction Token.scan pos cs generalizing as with
  | case1 pos cs hcs =>
    rw [Scan.traverse_done, Except.ok.injEq] at h
    subst h
    refine ⟨?_, by simp [Arg.nestingAll]⟩
    have hgap := split cs
    rw [hcs, List.append_nil] at hgap
    exact hgap ▸ .none (gaps cs)
  | case2 =>
    rw [Scan.traverse_failed] at h
    simp at h
  | case3 pos cs start c rest hcs w after hw =>
    rename_i hd
    obtain ⟨a, tail, hread, htail, rfl⟩ := Scan.traverse_cons_eq_ok.1 h
    rw [Scan.traverse_done, Except.ok.injEq] at htail
    subst htail
    obtain ⟨hsp, hl⟩ := Arg.spelling_of_read ha hw hread
    have hafter : Separators after := by
      intro d hd'
      have := List.takeWhile_append_dropWhile (p := isBlank) (l := after)
      rw [hd, List.append_nil] at this
      rw [← this] at hd'
      simp [Token.isSeparator, hblank after d hd']
    refine ⟨?_, by simpa [Arg.nestingAll] using hl⟩
    rw [← split cs, hcs, Written.eq_text_of_scan hw, ← List.append_assoc]
    exact .some (gaps cs) hsp (.last hafter)
  | case4 pos cs start c rest hcs w after hw stop more hd =>
    rename_i ih
    obtain ⟨a, tail, hread, htail, rfl⟩ := Scan.traverse_cons_eq_ok.1 h
    obtain ⟨hsp, hl⟩ := Arg.spelling_of_read ha hw hread
    obtain ⟨hmore, hl'⟩ := ih htail
    refine ⟨?_, by rw [Arg.nestingAll]; exact Nat.max_le.2 ⟨hl, hl'⟩⟩
    have hafter := List.takeWhile_append_dropWhile (p := isBlank) (l := after)
    rw [hd] at hafter
    rw [← split cs, hcs, Written.eq_text_of_scan hw, ← List.append_assoc, ← hafter]
    exact .some (gaps cs) hsp (hmore.rest (hblank after))
  | case5 =>
    rw [Scan.traverse_failed] at h
    simp at h

end

/-- **Argument lists that are read are spelled,** and nest as deep as they may
at most. -/
theorem Arg.soundWithin_readList : ∀ levels, Arg.SoundWithin levels (Arg.readList levels)
  | 0 => fun opened inside as h => by simp [Arg.readList] at h
  | levels + 1 => fun opened inside as h => by
    obtain ⟨hs, hl⟩ := Arg.listSpelling_of_scan (Arg.soundWithin_readList levels) _ _ h
    exact ⟨hs, Nat.lt_succ_of_le hl⟩

end TagScope
