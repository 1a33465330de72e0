/-
# Argument lists are cut at their commas

An argument list is read argument by argument: what an argument begins with
says how it goes on, and each kind has a scanner of its own that looks for the
end. Here that is compared with one pass over the text, which knows nothing of
arguments (`Pass`). Both agree (`splitArguments_eq_pieces`): the list is read
exactly when everything that is opened is closed and each piece looks like an
argument, and then the arguments are the pieces.

What the scanners have open is what the pass has open (`Nesting.pass`). So a
scanner for groups stops where the pass closes its group, a scanner for
references where the pass cuts, and the two walk through the list side by side:
separators, argument, white space, comma.

Key definitions: `Nesting.pass`.
Key theorems: `Written.piece_of_scan`, `Written.exists_scan`, `splitArguments_eq_pieces`.
-/
import TagScope.Proofs.Complete
import TagScope.Proofs.Pieces

namespace TagScope

/-! ### Groups and references -/

namespace Nesting

/-- What is open, without the places where it was opened. -/
def pass (n : Nesting) : Pass where
  quote := match n.quote with
    | .outside => none
    | .inside mark _ => some (mark, false)
    | .escaped mark _ => some (mark, true)
  depth := n.depth

@[simp] theorem isClear_pass (n : Nesting) : n.pass.isClear = n.isClear := by
  obtain ⟨quote, depth, opened⟩ := n
  cases quote with
  | outside => exact Bool.and_comm ..
  | inside => exact (Bool.and_false _).symm
  | escaped => exact (Bool.and_false _).symm

@[simp] theorem pass_step (n : Nesting) (pos : Nat) (c : Char) :
    (n.step pos c).pass = n.pass.next c := by
  obtain ⟨quote, depth, opened⟩ := n
  cases quote with
  | outside =>
    by_cases hm : Quoted.isMark c = true
    · simp only [step, pass, Pass.next, if_pos hm]
    · by_cases ho : c = '('
      · simp only [step, pass, Pass.next, if_neg hm, if_pos ho]
      · by_cases hc : c = ')'
        · simp only [step, pass, Pass.next, if_neg hm, if_neg ho, if_pos hc]
        · simp only [step, pass, Pass.next, if_neg hm, if_neg ho, if_neg hc]
  | inside mark opened' =>
    by_cases hm : c = mark
    · simp only [step, pass, Pass.next, if_pos hm]
    · by_cases hb : c = '\\'
      · simp only [step, pass, Pass.next, if_neg hm, if_pos hb]
      · simp only [step, pass, Pass.next, if_neg hm, if_neg hb]
  | escaped mark opened' => rfl

theorem skips_of_reachFrom : ∀ {cs before after : List Char} {n : Nesting} {pos : Nat},
    reachFrom n pos cs = .ok (before, after) → Pass.Skips n.pass {} before ∧
      (after = [] ∨ ∃ more, after = ',' :: more)
  | [], before, after, n, pos, h => by
    rw [reachFrom] at h
    split at h
    · rename_i hn
      simp only [Except.ok.injEq, Prod.mk.injEq] at h
      rw [← h.1, ← h.2, Pass.eq_of_isClear (n.isClear_pass.trans hn)]
      exact ⟨.refl _, Or.inl rfl⟩
    · simp at h
  | c :: cs, before, after, n, pos, h => by
    rw [reachFrom] at h
    split at h
    · rename_i hc
      simp only [Bool.and_eq_true, decide_eq_true_eq] at hc
      simp only [Except.ok.injEq, Prod.mk.injEq] at h
      rw [← h.1, ← h.2, hc.2, Pass.eq_of_isClear (n.isClear_pass.trans hc.1)]
      exact ⟨.refl _, Or.inr ⟨cs, rfl⟩⟩
    · rename_i hcomma
      split at h
      · simp at h
      · rename_i hparen
        obtain ⟨⟨before', after'⟩, hrest, heq⟩ := map_eq_ok.1 h
        simp only [Prod.map, id, Prod.mk.injEq] at heq
        obtain ⟨hskips, hafter⟩ := skips_of_reachFrom hrest
        rw [← heq.1, ← heq.2]
        refine ⟨.cons (fun hn => ?_) (by rwa [pass_step] at hskips), hafter⟩
        rw [isClear_pass] at hn
        simp only [hn, Bool.true_and, decide_eq_true_eq] at hcomma hparen
        exact ⟨hcomma, hparen⟩

theorem exists_reachFrom : ∀ {cs : List Char} {n : Nesting} {pos : Nat},
    n.pass.closes cs = true → ∃ before after, reachFrom n pos cs = .ok (before, after)
  | [], n, pos, h => by
    rw [Pass.closes, isClear_pass] at h
    exact ⟨[], [], by rw [reachFrom, if_pos h]⟩
  | c :: cs, n, pos, h => by
    simp only [Pass.closes, isClear_pass, Bool.and_eq_true, Bool.not_eq_true',
      ← pass_step n pos] at h
    rw [reachFrom]
    by_cases hcomma : (n.isClear && c = ',') = true
    · exact ⟨[], c :: cs, by rw [if_pos hcomma]⟩
    · obtain ⟨before, after, hreach⟩ := @exists_reachFrom cs _ (pos + c.utf8Size) h.2
      refine ⟨c :: before, after, ?_⟩
      rw [if_neg hcomma, if_neg (by simp [h.1]), hreach]
      rfl

theorem skips_of_reach {cs before after : List Char} {pos : Nat}
    (h : reach pos cs = .ok (before, after)) : Pass.Skips {} {} before ∧
      (after = [] ∨ ∃ more, after = ',' :: more) := skips_of_reachFrom h

/-- The parenthesis that ends a group is the last character that the pass needs
to close it. -/
theorem closesLast_of_closeFrom : ∀ {cs inside after : List Char} {n : Nesting} {pos : Nat},
    n.depth ≠ 0 → closeFrom n pos cs = .ok (inside, after) →
    n.pass.closesLast (inside ++ [')']) = true
  | [], _, _, _, _, _, h => by simp [closeFrom] at h
  | c :: cs, inside, after, n, pos, hd, h => by
    have hopen : n.isClear = false := by simpa using not_isClear_of_depth hd
    rw [closeFrom] at h
    split at h
    · rename_i hclear
      simp only [Except.ok.injEq, Prod.mk.injEq] at h
      have hc := eq_paren_of_isClear_step hd hclear
      rw [← h.1, List.nil_append, Pass.closesLast, Pass.closesLast, ← hc, ← pass_step n pos,
        isClear_pass, isClear_pass, hopen, hclear]
      rfl
    · rename_i hclear
      obtain ⟨⟨inside', after'⟩, hrest, heq⟩ := map_eq_ok.1 h
      simp only [Prod.map, id, Prod.mk.injEq] at heq
      have ih := closesLast_of_closeFrom (depth_step_ne_zero hd hclear) hrest
      rw [← heq.1, List.cons_append, Pass.closesLast, isClear_pass, hopen, ← pass_step n pos, ih]
      rfl

theorem closeFrom_of_closesLast {rest : List Char} : ∀ {cs : List Char} {n : Nesting} {pos : Nat},
    n.depth ≠ 0 → n.pass.closesLast cs = true →
    ∃ inside, cs = inside ++ [')'] ∧ closeFrom n pos (cs ++ rest) = .ok (inside, rest)
  | [], n, pos, hd, h => by
    rw [Pass.closesLast, isClear_pass] at h
    exact absurd h (not_isClear_of_depth hd)
  | c :: cs, n, pos, hd, h => by
    simp only [Pass.closesLast, Bool.and_eq_true, ← pass_step n pos] at h
    rw [List.cons_append, closeFrom]
    by_cases hclear : (n.step pos c).isClear = true
    · have hcs : cs = [] := by
        cases cs with
        | nil => rfl
        | cons d ds =>
          rw [Pass.closesLast, isClear_pass (n.step pos c), hclear] at h
          simp at h
      rw [hcs, eq_paren_of_isClear_step hd hclear] at *
      exact ⟨[], rfl, if_pos hclear⟩
    · obtain ⟨inside, hcs, hclose⟩ := @closeFrom_of_closesLast rest cs _ (pos + c.utf8Size)
        (depth_step_ne_zero hd hclear) h.2
      refine ⟨c :: inside, by rw [hcs]; rfl, ?_⟩
      rw [if_neg hclear, hclose]
      rfl

end Nesting

/-! ### What an argument starts like -/

theorem StartsNumber.append {cs : List Char} (h : StartsNumber cs) (rest : List Char) :
    StartsNumber (cs ++ rest) := by
  obtain ⟨sign, point, d, more, hsign, hpoint, hd, rfl⟩ := h
  exact ⟨sign, point, d, more ++ rest, hsign, hpoint, hd, by simp⟩

theorem StartsList.append {cs : List Char} (h : StartsList cs) (rest : List Char) :
    StartsList (cs ++ rest) := by
  obtain ⟨gap, more, hgap, rfl⟩ := h
  exact ⟨gap, more ++ rest, hgap, by simp⟩

theorem Numeral.Proper.startsNumber {n : Numeral} (hn : n.Proper) : StartsNumber n.text := by
  cases hw : n.whole with
  | cons d ds =>
    have hd : Char.isDigit d = true := hn.whole d (by simp [hw])
    refine ⟨n.sign, [], d, ds ++ n.fraction.elim [] ('.' :: ·) ++ n.exponent.elim [] Exponent.text,
      hn.sign, Or.inl rfl, hd, ?_⟩
    simp [text, hw]
  | nil =>
    obtain hne | ⟨digits, hf, hne⟩ := hn.nonempty
    · exact absurd hw hne
    · obtain ⟨d, ds, rfl⟩ := List.exists_cons_of_ne_nil hne
      have hd : Char.isDigit d = true := hn.fraction _ hf d List.mem_cons_self
      refine ⟨n.sign, ['.'], d, ds ++ n.exponent.elim [] Exponent.text,
        hn.sign, Or.inr rfl, hd, ?_⟩
      simp [text, hw, Option.mem_def.1 hf]

theorem StartsNumber.scan?_ne_none {cs : List Char} (h : StartsNumber cs) :
    Numeral.scan? cs ≠ none := by
  obtain ⟨sign, point, d, more, hsign, hpoint, hd, rfl⟩ := h
  have hplain : d ≠ '-' ∧ d ≠ '+' ∧ d ≠ '.' :=
    ⟨ne_of_isDigit hd (by decide), ne_of_isDigit hd (by decide), ne_of_isDigit hd (by decide)⟩
  have hdigits : (Numeral.scanDigits (d :: more)).1 ≠ [] := by simp [Numeral.scanDigits, hd]
  rcases hpoint with rfl | rfl
  · have hs := @Numeral.scanSign_toList_append sign (d :: more) hsign
      (stops_cons.2 (by simp [hplain]))
    rw [List.append_nil, Numeral.scan?, hs]
    simp [hdigits]
  · have hs := @Numeral.scanSign_toList_append sign ('.' :: d :: more) hsign
      (stops_cons.2 (by decide))
    have hnone : Numeral.scanDigits ('.' :: d :: more) = ([], '.' :: d :: more) :=
      @Numeral.scanDigits_append_stops [] _ (by simp [Digits]) (stops_cons.2 (by decide))
    rw [List.append_assoc, List.singleton_append, Numeral.scan?, hs]
    simp [hnone, Numeral.scanFraction, hdigits]

theorem Numeral.scan?_eq_none_iff {cs : List Char} : scan? cs = none ↔ ¬ StartsNumber cs := by
  refine ⟨fun h hs => hs.scan?_ne_none h, fun h => ?_⟩
  cases hscan : scan? cs with
  | none => rfl
  | some r =>
    refine absurd ?_ h
    rw [eq_text_of_scan? hscan]
    exact (proper_of_scan? hscan).startsNumber.append r.2

theorem Written.listOpening?_eq_none_iff {cs : List Char} :
    listOpening? cs = none ↔ ¬ StartsList cs := by
  constructor
  · rintro h ⟨gap, more, hgap, rfl⟩
    rw [listOpening?_append hgap] at h
    simp at h
  · intro h
    cases ho : listOpening? cs with
    | none => rfl
    | some r => exact absurd ⟨r.1, r.2, blanks_of_listOpening? ho, eq_of_listOpening? ho⟩ h

/-- What does not end with white space and has no comma in it does not go on over
what stands behind an argument. -/
theorem Written.Ends.exists_append {cs rest xs ys : List Char} (hr : Ends rest)
    (heq : cs ++ rest = xs ++ ys) {c : Char} (hlast : xs.getLast? = some c)
    (hc : isBlank c = false) (hcomma : ',' ∉ xs) : ∃ more, cs = xs ++ more := by
  rcases List.append_eq_append_iff.1 heq with ⟨beyond, hxs, hrest⟩ | ⟨more, hcs, -⟩
  · by_cases hbeyond : beyond = []
    · exact ⟨[], by rw [hxs, hbeyond, List.append_nil, List.append_nil]⟩
    · -- the character that is not white space stands behind the argument, so a comma does too
      have hmem : c ∈ beyond := by
        rw [hxs, List.getLast?_append_of_ne_nil _ hbeyond] at hlast
        exact List.mem_of_getLast? hlast
      have hne : beyond.dropWhile isBlank ≠ [] := by
        intro hnil
        have hblank := List.dropWhile_eq_nil_iff.1 hnil c hmem
        rw [hc] at hblank
        exact absurd hblank (by simp)
      obtain ⟨d, ds, hd⟩ := List.exists_cons_of_ne_nil hne
      have hdcomma : d = ',' := hr d (by rw [hrest, List.dropWhile_append, hd]; rfl)
      have hdmem : d ∈ beyond := (List.dropWhile_suffix isBlank).subset (by rw [hd]; simp)
      rw [hdcomma] at hdmem
      exact absurd (by rw [hxs]; exact List.mem_append_right _ hdmem) hcomma
  · exact ⟨more, hcs⟩

theorem StartsNumber.of_append {cs rest : List Char} (hr : Written.Ends rest)
    (h : StartsNumber (cs ++ rest)) : StartsNumber cs := by
  obtain ⟨sign, point, d, more, hsign, hpoint, hd, heq⟩ := h
  have hxs : cs ++ rest = (sign.toList ++ point ++ [d]) ++ more := by rw [heq]; simp
  have hcomma : ',' ∉ sign.toList ++ point ++ [d] := by
    simp only [List.mem_append, List.mem_singleton, not_or, Option.mem_toList]
    refine ⟨⟨fun h => ?_, fun h => ?_⟩, (ne_of_isDigit hd (by decide)).symm⟩
    · exact absurd (hsign ',' h) (by decide)
    · rcases hpoint with rfl | rfl
      · simp at h
      · exact absurd h (by decide)
  obtain ⟨more', rfl⟩ := hr.exists_append hxs List.getLast?_concat (isBlank_of_isDigit hd) hcomma
  exact ⟨sign, point, d, more', hsign, hpoint, hd, by simp⟩

theorem StartsList.of_append {cs rest : List Char} (hr : Written.Ends rest)
    (h : StartsList (cs ++ rest)) : StartsList cs := by
  obtain ⟨gap, more, hgap, heq⟩ := h
  have hxs : cs ++ rest = (Written.listWord ++ gap ++ ['(']) ++ more := by rw [heq]; simp
  have hcomma : ',' ∉ Written.listWord ++ gap ++ ['('] := by
    simp only [List.mem_append, List.mem_singleton, not_or]
    exact ⟨⟨by decide, fun h => absurd (hgap ',' h) (by decide)⟩, by decide⟩
  obtain ⟨more', rfl⟩ := hr.exists_append hxs List.getLast?_concat (by decide) hcomma
  exact ⟨gap, more', hgap, by simp⟩

/-! ### Arguments and pieces -/

theorem Blanks.skips {gap : List Char} (h : Blanks gap) : Pass.Skips {} {} gap :=
  .of_plain rfl fun _ hc => plain_of_isBlank (h _ hc)

theorem IsName.skips {name : List Char} (h : IsName name) : Pass.Skips {} {} name :=
  .of_plain rfl fun c hc => plain_of_isNameChar (h.chars c hc)

theorem blanks_takeWhile (cs : List Char) : Blanks (cs.takeWhile isBlank) :=
  fun _ hc => List.mem_takeWhile_imp hc

namespace Written

theorem blanks_blankEnd (cs : List Char) : Blanks (blankEnd cs) :=
  fun _ hc => List.mem_takeWhile_imp (List.mem_reverse.1 hc)

theorem getLast?_trimEnd (cs : List Char) : ∀ c ∈ (trimEnd cs).getLast?, isBlank c = false := by
  intro c hc
  rw [trimEnd, List.getLast?_reverse] at hc
  exact stops_dropWhile isBlank cs.reverse c hc

theorem stops_of_cut {after : List Char} (h : after = [] ∨ ∃ more, after = ',' :: more) :
    Stops isBlank after := by
  rcases h with rfl | ⟨_, rfl⟩
  · exact stops_nil _
  · exact stops_cons.2 (by decide)

theorem skips_listWord {gap : List Char} (h : Blanks gap) : Pass.Skips {} {} (listWord ++ gap) :=
  isName_listWord.skips.trans h.skips

theorem eq_blankEnd_append {pos : Nat} {cs before after after' : List Char}
    (hreach : Nesting.reach pos cs = .ok (before, after'))
    (htext : cs = trimEnd before ++ after) : after = blankEnd before ++ after' := by
  refine List.append_cancel_left (htext.symm.trans ?_)
  rw [← List.append_assoc, trimEnd_append_blankEnd]
  exact Nesting.append_of_reach hreach

theorem piece_of_reach {pos : Nat} {c : Char} {rest before after after' : List Char}
    (hnum : Numeral.scan? (c :: rest) = none) (hlist : listOpening? (c :: rest) = none)
    (hstart : startsReference c = true)
    (hreach : Nesting.reach pos (c :: rest) = .ok (before, after'))
    (htext : c :: rest = trimEnd before ++ after) :
    IsArgument (trimEnd before) ∧ Pass.Skips {} {} (trimEnd before ++ after.takeWhile isBlank) := by
  obtain ⟨hskips, hafter'⟩ := Nesting.skips_of_reach hreach
  have hcomma : c ≠ ',' := by rintro rfl; exact absurd hstart (by decide)
  obtain ⟨more, rfl⟩ := Nesting.reach_eq_cons hcomma hreach
  obtain ⟨trimmed, htrim⟩ := trimEnd_eq_cons (not_blank_of_startsReference hstart) more
  constructor
  · rw [htrim]
    have hcs : c :: rest = c :: trimmed ++ after := by rw [← htrim]; exact htext
    refine .reference hstart (fun hs => ?_) (fun hs => ?_)
    · exact Numeral.scan?_eq_none_iff.1 hnum (hcs ▸ hs.append after)
    · exact listOpening?_eq_none_iff.1 hlist (hcs ▸ hs.append after)
  · have hgap := takeWhile_append_stops (blanks_blankEnd (c :: more)) (stops_of_cut hafter')
    rw [eq_blankEnd_append hreach htext, hgap, trimEnd_append_blankEnd]
    exact hskips

/-- **An argument that is read is a piece**: it looks like an argument, and the
pass goes over it and the white space behind it without a cut. -/
theorem piece_of_scan {pos : Nat} {c : Char} {rest after : List Char} {w : Written}
    (h : scan pos c rest = .ok (w, after)) : IsArgument w.text ∧
      (∀ d ∈ w.text.getLast?, isBlank d = false) ∧
      Pass.Skips {} {} (w.text ++ after.takeWhile isBlank) := by
  have htext := eq_text_of_scan h
  have hgap := (blanks_takeWhile after).skips
  rcases scan_cases h with ⟨body, rfl, hm, hclose⟩ | ⟨n, rfl, hscan⟩ |
    ⟨gap, inner, inside, rfl, hlist, hclose⟩ | ⟨before, after', rfl, hnum, hlist, hstart, hreach⟩
  · have hbody := Quoted.body_of_close hclose
    refine ⟨.quoted hm hbody, fun d hd => ?_, (Pass.Skips.quoted hm hbody).trans hgap⟩
    rw [text, List.getLast?_concat, Option.mem_def, Option.some.injEq] at hd
    rw [← hd]
    simp only [Quoted.isMark, Bool.or_eq_true, decide_eq_true_eq] at hm
    rcases hm with rfl | rfl <;> decide
  · have hn := Numeral.proper_of_scan? hscan
    refine ⟨.number hn, fun d hd => ?_, Pass.Skips.trans ?_ hgap⟩
    · exact (hn.plain_of_mem_text (List.mem_of_getLast? hd)).2
    · exact .of_plain rfl fun d hd => (hn.plain_of_mem_text hd).1
  · have hblanks := blanks_of_listOpening? hlist
    have hlast := Nesting.closesLast_of_closeFrom (by simp) hclose
    have hshape : text (.list gap inside) = listWord ++ gap ++ '(' :: (inside ++ [')']) := by
      simp [text]
    refine ⟨by rw [hshape]; exact .list hblanks hlast, fun d hd => ?_, Pass.Skips.trans ?_ hgap⟩
    · rw [text, List.getLast?_concat, Option.mem_def, Option.some.injEq] at hd
      rw [← hd]
      decide
    · rw [hshape]
      refine (skips_listWord hblanks).trans (.cons (fun _ => by decide) ?_)
      exact .of_closesLast hlast
  · obtain ⟨hargument, hskips⟩ := piece_of_reach hnum hlist hstart hreach htext
    exact ⟨hargument, getLast?_trimEnd _, hskips⟩

/-- **A piece that looks like an argument is read as one**, up to the white space
behind it. -/
theorem scan_of_isArgument {pos : Nat} {c : Char} {rest before after : List Char}
    (h : IsArgument (trimEnd before)) (hends : Ends (blankEnd before ++ after))
    (hreach : Nesting.reach pos (c :: rest) = .ok (before, after)) :
    ∃ w, scan pos c rest = .ok (w, blankEnd before ++ after) := by
  have hcs : c :: rest = trimEnd before ++ (blankEnd before ++ after) := by
    rw [← List.append_assoc, trimEnd_append_blankEnd]
    exact Nesting.append_of_reach hreach
  generalize htext : trimEnd before = cs at h hcs
  cases h with
  | @quoted mark body text hm hbody =>
    rw [List.append_assoc, List.cons_append, List.cons.injEq] at hcs
    obtain ⟨rfl, rfl⟩ := hcs
    refine ⟨.quoted c body, ?_⟩
    rw [scan, if_pos hm, List.singleton_append, Quoted.close_of_body hm hbody]
  | @number n hn =>
    obtain ⟨d, more, hd, -, hscan⟩ := scan_number pos hn hends
    rw [hd, List.cons_append, List.cons.injEq] at hcs
    obtain ⟨rfl, rfl⟩ := hcs
    exact ⟨.number n, hscan⟩
  | @list gap inner hgap hlast =>
    obtain ⟨inside, -, hclose⟩ := @Nesting.closeFrom_of_closesLast (blankEnd before ++ after) inner
      { depth := 1, opened := listOpened pos gap } (listOpened pos gap + 1) (by simp) hlast
    have hshape : c :: rest = 'a' :: (['r', 'r', 'a', 'y'] ++ gap ++
        '(' :: (inner ++ (blankEnd before ++ after))) := by
      rw [hcs]
      simp [listWord]
    rw [List.cons.injEq] at hshape
    obtain ⟨rfl, rfl⟩ := hshape
    exact ⟨.list gap inside, scan_of_close hgap hclose⟩
  | @reference d ds hstart hnum hlist =>
    obtain ⟨rfl, -⟩ := List.cons.inj hcs
    refine ⟨.reference (trimEnd before), scan_of_reach hstart ?_ ?_ hreach⟩
    · rw [Numeral.scan?_eq_none_iff, hcs]
      exact fun hs => hnum (hs.of_append hends)
    · rw [listOpening?_eq_none_iff, hcs]
      exact fun hs => hlist (hs.of_append hends)

end Written

/-! ### The whole list -/

theorem IsArgument.ne_nil {cs : List Char} (h : IsArgument cs) : cs ≠ [] := by
  cases h with
  | quoted => simp
  | number hn =>
    obtain ⟨c, more, hc, -⟩ := Numeral.text_head hn
    simp [hc]
  | list => simp [Written.listWord]
  | reference => simp

namespace Token

theorem separators_takeWhile (cs : List Char) : Separators (cs.takeWhile isSeparator) :=
  fun _ hc => List.mem_takeWhile_imp hc

theorem located_dropWhile (pos : Nat) (cs : List Char) :
    Pass.closes {} cs = Pass.closes {} (cs.dropWhile isSeparator) ∧
      located pos (Pass.pieces {} cs) = located (pos + width (cs.takeWhile isSeparator))
        (Pass.pieces {} (cs.dropWhile isSeparator)) := by
  have h := @located_pieces_append _ (cs.dropWhile isSeparator) pos (separators_takeWhile cs)
  rwa [List.takeWhile_append_dropWhile] at h

theorem isSeparator_of_dropWhile {cs rest : List Char} {c : Char}
    (h : cs.dropWhile isSeparator = c :: rest) : isBlank c = false ∧ c ≠ ',' := by
  have hstops := stops_dropWhile isSeparator cs
  rw [h] at hstops
  have hc := stops_cons.1 hstops
  simp only [isSeparator, Bool.or_eq_false_iff, decide_eq_false_iff_not] at hc
  exact hc

section

variable {pos : Nat} {cs : List Char} {c : Char} {rest after : List Char} {w : Written}
  (hcs : cs.dropWhile isSeparator = c :: rest)

include hcs

theorem located_of_scan
    (h : Written.scan (pos + width (cs.takeWhile isSeparator)) c rest = .ok (w, after))
    (hends : Written.Ends after) :
    Pass.closes {} cs = Pass.closes {} (after.dropWhile isBlank) ∧
      located pos (Pass.pieces {} cs) = (pos + width (cs.takeWhile isSeparator), w.text) ::
        located (pos + width (cs.takeWhile isSeparator) + width w.text +
          width (after.takeWhile isBlank) + 1) (Pass.pieces {} (after.dropWhile isBlank)).tail := by
  obtain ⟨hclosesBehind, hlocatedBehind⟩ := located_dropWhile pos cs
  obtain ⟨hargument, hlast, hskips⟩ := Written.piece_of_scan h
  have hrest : c :: rest = w.text ++ after.takeWhile isBlank ++ after.dropWhile isBlank := by
    rw [List.append_assoc, List.takeWhile_append_dropWhile]
    exact Written.eq_text_of_scan h
  obtain ⟨hcloses, hpieces⟩ := hskips (after.dropWhile isBlank)
  rw [← hrest] at hcloses hpieces
  -- the piece ends where the argument and the white space behind it end
  have hcut : Pass.pieces {} (after.dropWhile isBlank) =
      [] :: (Pass.pieces {} (after.dropWhile isBlank)).tail := by
    cases hd : after.dropWhile isBlank with
    | nil => rfl
    | cons d more =>
      have hcomma : d = ',' := hends d (by rw [hd]; rfl)
      rw [hcomma]
      rfl
  rw [hcut, List.modifyHead_cons, List.append_nil] at hpieces
  obtain ⟨more, htext⟩ : ∃ more, w.text = c :: more := by
    obtain ⟨d, ds, hd⟩ := List.exists_cons_of_ne_nil hargument.ne_nil
    rw [hd, List.cons_append, List.cons_append, List.cons.injEq] at hrest
    exact ⟨ds, by rw [hd, hrest.1]⟩
  have hblank := (isSeparator_of_dropWhile hcs).1
  have hstop : Stops isBlank (w.text ++ after.takeWhile isBlank) := by
    rw [htext]
    exact stops_cons.2 hblank
  have htrim : trim (w.text ++ after.takeWhile isBlank) = w.text := by
    rw [trim, dropWhile_stops hstop]
    exact (Written.trimEnd_append (blanks_takeWhile after) hlast).1
  have hall : ¬ (w.text ++ after.takeWhile isBlank).all isBlank = true := by simp [htext, hblank]
  rw [hclosesBehind, hlocatedBehind, hcs, hpieces, located, if_neg hall, takeWhile_stops hstop,
    htrim, width_nil, width_append, Nat.add_zero, ← Nat.add_assoc]
  exact ⟨hcloses, rfl⟩

theorem exists_scan (hcloses : Pass.closes {} cs = true)
    (h : ∀ a ∈ located pos (Pass.pieces {} cs), IsArgument a.2) : ∃ w after,
      Written.scan (pos + width (cs.takeWhile isSeparator)) c rest = .ok (w, after) ∧
        Written.Ends after := by
  obtain ⟨hclosesBehind, hlocatedBehind⟩ := located_dropWhile pos cs
  rw [hclosesBehind, hcs] at hcloses
  rw [hlocatedBehind, hcs] at h
  obtain ⟨before, after, hreach⟩ :=
    @Nesting.exists_reachFrom (c :: rest) {} (pos + width (cs.takeWhile isSeparator)) hcloses
  obtain ⟨hskips, hafter⟩ := Nesting.skips_of_reach hreach
  obtain ⟨hblank, hcomma⟩ := isSeparator_of_dropWhile hcs
  obtain ⟨more, rfl⟩ := Nesting.reach_eq_cons hcomma hreach
  have hends : Written.Ends (Written.blankEnd (c :: more) ++ after) := by
    rw [Written.Ends, dropWhile_append_stops (Written.blanks_blankEnd _)
      (Written.stops_of_cut hafter)]
    rcases hafter with rfl | ⟨_, rfl⟩ <;> simp
  have hargument : IsArgument (Written.trimEnd (c :: more)) := by
    obtain ⟨tail, hpieces⟩ : ∃ tail, Pass.pieces {} (c :: rest) = (c :: more) :: tail := by
      rw [Nesting.append_of_reach hreach, (hskips after).2]
      rcases hafter with rfl | ⟨_, rfl⟩
      · exact ⟨[], by simp [Pass.pieces]⟩
      · exact ⟨_, by simp [Pass.pieces]; rfl⟩
    refine h (pos + width (cs.takeWhile isSeparator), _) ?_
    rw [hpieces, located, if_neg (by simp [hblank]), trim, dropWhile_stops (stops_cons.2 hblank),
      takeWhile_stops (stops_cons.2 hblank)]
    exact List.mem_cons_self
  obtain ⟨w, hw⟩ := Written.scan_of_isArgument hargument hends hreach
  exact ⟨w, _, hw, hends⟩

end

/-- **A list that is read is cut at its commas**: the arguments are the pieces. -/
theorem pieces_of_scan (pos : Nat) (cs : List Char) (h : (scan pos cs).fault = none) :
    Pass.closes {} cs = true ∧
      (scan pos cs).items.map (fun t => (t.start, t.text)) = located pos (Pass.pieces {} cs) ∧
      ∀ a ∈ located pos (Pass.pieces {} cs), IsArgument a.2 := by
  fun_induction scan pos cs with
  | case1 pos cs hcs =>
    obtain ⟨hcloses, hlocated⟩ := located_dropWhile pos cs
    rw [hcs] at hcloses hlocated
    rw [hcloses, hlocated]
    exact ⟨rfl, rfl, by simp [Pass.pieces, located]⟩
  | case2 => simp [Scan.failed] at h
  | case3 pos cs start c rest hcs w after hw hd =>
    have hends : Written.Ends after := by
      rw [Written.Ends, hd]
      simp
    obtain ⟨hcloses, hlocated⟩ := located_of_scan hcs hw hends
    rw [hd] at hcloses hlocated
    rw [hcloses, hlocated]
    refine ⟨rfl, rfl, ?_⟩
    simp [Pass.pieces, located, (Written.piece_of_scan hw).1]
  | case4 pos cs start c rest hcs w after hw stop more hd ih =>
    have hends : Written.Ends after := by
      rw [Written.Ends, hd]
      simp
    obtain ⟨hcloses, hlocated⟩ := located_of_scan hcs hw hends
    rw [hd] at hcloses hlocated
    obtain ⟨hmore, hitems, harguments⟩ := ih h
    have hbehind : located pos (Pass.pieces {} cs) =
        (start, w.text) :: located (stop + 1) (Pass.pieces {} more) := hlocated
    refine ⟨hcloses.trans hmore, ?_, ?_⟩
    · rw [hbehind, ← hitems]
      rfl
    · rw [hbehind]
      exact List.forall_mem_cons.2 ⟨(Written.piece_of_scan hw).1, harguments⟩
  | case5 => simp [Scan.failed] at h

/-- **A list whose pieces look like arguments is read**, if everything is closed. -/
theorem scan_of_pieces (pos : Nat) (cs : List Char) (hcloses : Pass.closes {} cs = true)
    (h : ∀ a ∈ located pos (Pass.pieces {} cs), IsArgument a.2) : (scan pos cs).fault = none := by
  fun_induction scan pos cs with
  | case1 => rfl
  | case2 pos cs start c rest hcs fault hw =>
    obtain ⟨w, after, hscan, -⟩ := exists_scan hcs hcloses h
    exact absurd (hscan.symm.trans hw) (by simp)
  | case3 => rfl
  | case4 pos cs start c rest hcs w after hw stop more hd ih =>
    have hends : Written.Ends after := by
      rw [Written.Ends, hd]
      simp
    obtain ⟨hcloses', hlocated⟩ := located_of_scan hcs hw hends
    rw [hd] at hcloses' hlocated
    have hbehind : located pos (Pass.pieces {} cs) =
        (start, w.text) :: located (stop + 1) (Pass.pieces {} more) := hlocated
    rw [hbehind] at h
    exact ih (hcloses'.symm.trans hcloses) (List.forall_mem_cons.1 h).2
  | case5 pos cs start c rest hcs w after hw stop d more hd hcomma =>
    obtain ⟨w', after', hscan, hends⟩ := exists_scan hcs hcloses h
    obtain ⟨rfl, rfl⟩ := Prod.mk.inj (Except.ok.inj (hscan.symm.trans hw))
    exact absurd (hends d (by rw [hd]; rfl)) hcomma

end Token

theorem splitArguments_eq_ok {input : String} {parts : List String} :
    splitArguments input = .ok parts ↔ (scanArguments input).fault = none ∧
      parts = (scanArguments input).items.map fun t => String.ofList t.text := by
  unfold splitArguments Scan.toExcept
  cases (scanArguments input).fault with
  | none => simp [eq_comm]
  | some fault => simp

/-- **Splitting is one pass.** The pieces of a list, with the commas between them,
are the whole text, and what is located in them stands in the text where it is
said to. A list is split exactly when nothing is closed that is not open, nothing
is open at the end, and each piece that is not blank looks like an argument; then
the arguments are those pieces, in order, trimmed, and each has been cut out of
the text where its piece stands. -/
theorem splitArguments_eq_pieces (input : String) (parts : List String) :
    [','].intercalate (Pass.pieces {} input.toList) = input.toList ∧
      (∀ a ∈ located 0 (Pass.pieces {} input.toList), ∃ before after,
        input.toList = before ++ a.2 ++ after ∧ a.1 = width before) ∧
      (splitArguments input = .ok parts ↔
        Pass.closes {} input.toList = true ∧
        (∀ a ∈ located 0 (Pass.pieces {} input.toList), IsArgument a.2) ∧
        parts = (located 0 (Pass.pieces {} input.toList)).map fun a => String.ofList a.2) ∧
      (splitArguments input = .ok parts →
        (scanArguments input).items.map (fun t => (t.start, t.text)) =
          located 0 (Pass.pieces {} input.toList)) := by
  have hrejoined := Pass.intercalate_pieces input.toList {}
  refine ⟨hrejoined, fun a ha => ?_, ⟨fun h => ?_, ?_⟩, fun h => ?_⟩
  · obtain ⟨before, after, heq, hpos⟩ := slice_of_mem_located ha
    rw [hrejoined] at heq
    exact ⟨before, after, heq, by rw [hpos, Nat.zero_add]⟩
  · obtain ⟨hfault, rfl⟩ := splitArguments_eq_ok.1 h
    obtain ⟨hcloses, hitems, harguments⟩ := Token.pieces_of_scan 0 input.toList hfault
    refine ⟨hcloses, harguments, ?_⟩
    rw [← hitems, List.map_map]
    rfl
  · rintro ⟨hcloses, harguments, rfl⟩
    have hfault := Token.scan_of_pieces 0 input.toList hcloses harguments
    obtain ⟨-, hitems, -⟩ := Token.pieces_of_scan 0 input.toList hfault
    refine splitArguments_eq_ok.2 ⟨hfault, ?_⟩
    rw [← hitems, List.map_map]
    rfl
  · exact (Token.pieces_of_scan 0 input.toList (splitArguments_eq_ok.1 h).1).2.1

end TagScope
