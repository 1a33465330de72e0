/-
# The argument lists of a tag

A tag is read from outside in: the lists in its segments first, then the lists
in their arguments, and so on (`Path.Reaches`). Every list that is read this way
stands in the tag, and the number of lists around it is the number of
parentheses that are open before it (`Path.Reaches.stands`). So how deep the
lists nest can be seen from the parentheses alone, and a reader that may open
as many lists as parentheses nest never comes to its limit
(`Path.read_of_nestsWithin`).

Key definitions: `Pass.after`, `Pass.NestsWithin`, `Stands`, `Path.Reaches`.
Key theorems: `Stands.trans`, `Path.Reaches.stands`, `Path.read_of_nestsWithin`.
-/
import TagScope.Proofs.Enclosed
import TagScope.Proofs.Moving

namespace TagScope

/-! ### What is open at a place -/

namespace Pass

/-- What is open behind a text. -/
def after (p : Pass) (cs : List Char) : Pass := cs.foldl next p

/-- What is open if `n` parentheses have been opened before. -/
def raise (n : Nat) (p : Pass) : Pass := { p with depth := p.depth + n }

/-- Whether at most so many parentheses are open anywhere in a text. -/
def NestsWithin (limit : Nat) (cs : List Char) : Prop :=
  ∀ before, before <+: cs → (after {} before).depth ≤ limit

theorem after_append (p : Pass) (cs ds : List Char) :
    p.after (cs ++ ds) = (p.after cs).after ds := List.foldl_append

theorem after_of_closes : ∀ {cs : List Char} {p : Pass}, p.closes cs = true → p.after cs = {}
  | [], _, h => eq_of_isClear h
  | c :: cs, p, h => by
    simp only [closes, Bool.and_eq_true] at h
    exact @after_of_closes cs (p.next c) h.2

theorem Skips.closes {cs : List Char} (h : Skips {} {} cs) : Pass.closes {} cs = true := by
  have hend := (h []).1
  rwa [List.append_nil] at hend

theorem Skips.after {cs : List Char} (h : Skips {} {} cs) : Pass.after {} cs = {} :=
  after_of_closes h.closes

theorem next_raise {p : Pass} {c : Char} (n : Nat) (h : (p.isClear && c = ')') = false) :
    (p.raise n).next c = (p.next c).raise n := by
  obtain ⟨quote, depth⟩ := p
  rcases quote with _ | ⟨mark, escaped⟩
  · by_cases hm : Quoted.isMark c = true
    · simp only [raise, next, if_pos hm]
    · by_cases ho : c = '('
      · simp only [raise, next, if_neg hm, if_pos ho, Nat.add_right_comm]
      · by_cases hc : c = ')'
        · have hd : depth ≠ 0 := by
            rintro rfl
            simp [isClear, hc] at h
          have hdepth : depth + n - 1 = depth - 1 + n := by omega
          simp only [raise, next, if_neg hm, if_neg ho, if_pos hc, hdepth]
        · simp only [raise, next, if_neg hm, if_neg ho, if_neg hc]
  · cases escaped with
    | true => rfl
    | false =>
      by_cases hm : c = mark
      · simp only [raise, next, if_pos hm]
      · by_cases hb : c = '\\'
        · simp only [raise, next, if_neg hm, if_pos hb]
        · simp only [raise, next, if_neg hm, if_neg hb]

/-- **Parentheses opened before a text stay open** as far as the text closes
none but its own. -/
theorem after_raise (n : Nat) : ∀ {cs ds : List Char} {p : Pass}, p.closes (cs ++ ds) = true →
    (p.raise n).after cs = (p.after cs).raise n
  | [], _, _, _ => rfl
  | c :: cs, ds, p, h => by
    simp only [List.cons_append, closes, Bool.and_eq_true, Bool.not_eq_true'] at h
    have hnext := next_raise n h.1
    show ((p.raise n).next c).after cs = ((p.next c).after cs).raise n
    rw [hnext]
    exact after_raise n h.2

/-- The same where nothing but `depth` parentheses is open before the text. -/
theorem after_deeper (depth : Nat) {cs ds : List Char} (h : closes {} (cs ++ ds) = true) :
    after ⟨none, depth⟩ cs = (after {} cs).raise depth := by
  have hraise := after_raise depth h
  rwa [raise, Nat.zero_add] at hraise

end Pass

/-! ### Pieces of a text -/

/-- A piece stands in a text, `start` bytes from its beginning, with `depth`
parentheses open before it and no quoted text. -/
def Stands (cs : List Char) (start depth : Nat) (piece : List Char) : Prop :=
  ∃ before after, cs = before ++ piece ++ after ∧ start = width before ∧
    Pass.after {} before = ⟨none, depth⟩

namespace Stands

variable {cs lead piece sub : List Char} {start start' depth depth' : Nat}

theorem behind (hlead : Pass.after {} lead = {}) (h : Stands cs start depth piece) :
    Stands (lead ++ cs) (width lead + start) depth piece := by
  obtain ⟨before, after, rfl, rfl, hopen⟩ := h
  refine ⟨lead ++ before, after, by simp, (width_append ..).symm, ?_⟩
  rw [Pass.after_append, hlead]
  exact hopen

/-- **A piece of a piece.** The depths add up, since the outer piece closes only
what it opens. -/
theorem trans (h : Stands cs start depth piece) (hcloses : Pass.closes {} piece = true)
    (h' : Stands piece start' depth' sub) : Stands cs (start + start') (depth' + depth) sub := by
  obtain ⟨before, after, rfl, rfl, hopen⟩ := h
  obtain ⟨before', after', rfl, rfl, hopen'⟩ := h'
  refine ⟨before ++ before', after' ++ after, by simp, (width_append ..).symm, ?_⟩
  rw [List.append_assoc] at hcloses
  rw [Pass.after_append, hopen, Pass.after_deeper depth hcloses, hopen']
  rfl

/-- What the parentheses of a group hold stands behind the first of them. -/
theorem inside {inside : List Char} (h : Stands cs start depth ('(' :: inside ++ [')'])) :
    Stands cs (start + 1) (depth + 1) inside := by
  obtain ⟨before, after, rfl, rfl, hopen⟩ := h
  refine ⟨before ++ ['('], ')' :: after, by simp, by rw [width_append]; rfl, ?_⟩
  rw [Pass.after_append, hopen]
  rfl

theorem nestsWithin {limit : Nat} (h : Stands cs start depth piece)
    (hcloses : Pass.closes {} piece = true) (hnests : Pass.NestsWithin limit cs) :
    depth ≤ limit ∧ Pass.NestsWithin (limit - depth) piece := by
  obtain ⟨before, after, rfl, -, hopen⟩ := h
  have hprefix : ∀ before', before' <+: piece →
      (Pass.after {} before').depth + depth ≤ limit := by
    rintro before' ⟨after', rfl⟩
    have hdepth := hnests (before ++ before') ⟨after' ++ after, by simp⟩
    rw [Pass.after_append, hopen, Pass.after_deeper depth hcloses] at hdepth
    exact hdepth
  have hstart := hprefix [] List.nil_prefix
  refine ⟨Nat.le_trans (Nat.le_add_left ..) hstart, fun before' hbefore' => ?_⟩
  have hdepth := hprefix before' hbefore'
  omega

end Stands

/-! ### Segments and arguments stand in the text -/

theorem RawSegment.stands_of_scan (pos : Nat) (cs : List Char) :
    ∀ s ∈ (scan pos cs).items, (∃ start, s.start = pos + start ∧ Stands cs start 0 s.text) ∧
      ∃ text after, scanOne s.start text = .ok (s, after) := by
  have hfirst : ∀ {pos cs after s}, scanOne pos cs = .ok (s, after) →
      (∃ start, s.start = pos + start ∧ Stands cs start 0 s.text) ∧
        ∃ text after, scanOne s.start text = .ok (s, after) := by
    intro pos cs after s hone
    have hstart := start_of_scanOne hone
    exact ⟨⟨0, hstart, [], after, eq_text_of_scanOne hone, rfl, rfl⟩, cs, after,
      by rw [hstart]; exact hone⟩
  fun_induction scan pos cs with
  | case1 => simp [Scan.failed]
  | case2 pos cs s hone => simpa [Scan.cons, Scan.done] using hfirst hone
  | case3 pos cs s c rest hone => simpa [Scan.cons, Scan.done] using hfirst hone
  | case4 pos cs s stop rest hone hblank _ =>
    rename_i ih
    refine List.forall_mem_cons.2 ⟨hfirst hone, fun s' hs' => ?_⟩
    obtain ⟨⟨start, hstart, hstands⟩, hread⟩ := ih s' hs'
    have hlead : Pass.Skips {} {} (s.text ++ ['.']) :=
      (skips_text hone).1.trans (.char fun _ => by decide)
    have hbehind := hstands.behind hlead.after
    rw [List.append_assoc, List.singleton_append, ← eq_text_of_scanOne hone] at hbehind
    refine ⟨⟨_, ?_, hbehind⟩, hread⟩
    rw [hstart, width_append]
    show pos + width s.text + 1 + start = pos + (width s.text + 1 + start)
    omega
  | case5 pos cs s stop c rest hone => simpa [Scan.cons, Scan.failed] using hfirst hone

/-- **The argument lists of a path** stand in its text, and are closed. -/
theorem Path.Lists.stands {pos opened : Nat} {cs inside : List Char}
    (h : Path.Lists pos cs opened inside) :
    (∃ start, opened = pos + start ∧ Stands cs start 0 ('(' :: inside ++ [')'])) ∧
      Pass.closes {} inside = true := by
  obtain ⟨s, hs, rfl, hinside⟩ := h
  obtain ⟨⟨start, hstart, hstands⟩, text, after, hone⟩ := RawSegment.stands_of_scan _ _ s hs
  obtain ⟨hskips, hcloses⟩ := RawSegment.skips_text hone
  have hname := (RawSegment.isName_of_scanOne hone).skips
  have hgroup : Stands s.text (width s.name) 0 ('(' :: inside ++ [')']) := by
    refine ⟨s.name, [], ?_, rfl, hname.after⟩
    rw [RawSegment.text, hinside, List.append_nil]
    rfl
  have hwhole := (hstands.trans hskips.closes hgroup).behind (blanks_takeWhile cs).skips.after
  rw [List.takeWhile_append_dropWhile] at hwhole
  refine ⟨⟨_, ?_, hwhole⟩, hcloses inside hinside⟩
  rw [RawSegment.opened, hstart]
  omega

theorem Written.closes_text {pos : Nat} {c : Char} {rest after : List Char} {w : Written}
    (h : scan pos c rest = .ok (w, after)) : Pass.closes {} w.text = true :=
  Pass.Marked.closes_of_append (blanks_takeWhile after) (by simp [Pass.Marked])
    (piece_of_scan h).2.2.closes

theorem Written.blanks_of_scan {pos : Nat} {c : Char} {rest after gap inside : List Char}
    (h : scan pos c rest = .ok (.list gap inside, after)) : Blanks gap := by
  obtain ⟨body, hw, -⟩ | ⟨n, hw, -⟩ | ⟨gap', inner, inside', hw, hlist, -⟩ |
    ⟨before, after', hw, -⟩ := scan_cases h
  · cases hw
  · cases hw
  · cases hw
    exact blanks_of_listOpening? hlist
  · cases hw

theorem Separators.after : ∀ {seps : List Char}, Separators seps → Pass.after {} seps = {}
  | [], _ => rfl
  | c :: seps, h => by
    have hnext : Pass.next {} c = {} := by
      have hc := h c List.mem_cons_self
      simp only [Token.isSeparator, Bool.or_eq_true, decide_eq_true_eq] at hc
      rcases hc with hblank | rfl
      · obtain ⟨hm, ho, hparen, -⟩ := plain_of_isBlank hblank
        simp [Pass.next, hm, ho, hparen]
      · decide
    show (Pass.next {} c).after seps = {}
    rw [hnext]
    exact Separators.after fun d hd => h d (List.mem_cons_of_mem _ hd)

/-- **The arguments of a list** stand in its text, and each has been read there. -/
theorem Token.stands_of_scan (pos : Nat) (cs : List Char) :
    ∀ t ∈ (scan pos cs).items, (∃ start, t.start = pos + start ∧ Stands cs start 0 t.text) ∧
      ∃ c rest after, Written.scan t.start c rest = .ok (t.written, after) := by
  have hfirst : ∀ {pos cs c rest w after}, cs.dropWhile isSeparator = c :: rest →
      Written.scan (pos + width (cs.takeWhile isSeparator)) c rest = .ok (w, after) →
      (∃ start, pos + width (cs.takeWhile isSeparator) = pos + start ∧ Stands cs start 0 w.text) ∧
        ∃ c rest after', Written.scan (pos + width (cs.takeWhile isSeparator)) c rest =
          .ok (w, after') := by
    intro pos cs c rest w after hcs hw
    refine ⟨⟨_, rfl, cs.takeWhile isSeparator, after, ?_, rfl, ?_⟩, c, rest, after, hw⟩
    · rw [List.append_assoc, ← Written.eq_text_of_scan hw, ← hcs, List.takeWhile_append_dropWhile]
    · exact (separators_takeWhile cs).after
  fun_induction scan pos cs with
  | case1 => simp [Scan.done]
  | case2 => simp [Scan.failed]
  | case3 pos cs start c rest hcs w after hw hd =>
    exact List.forall_mem_cons.2 ⟨hfirst hcs hw, by simp [Scan.done]⟩
  | case4 pos cs start c rest hcs w after hw stop more hd ih =>
    refine List.forall_mem_cons.2 ⟨hfirst hcs hw, fun t ht => ?_⟩
    obtain ⟨⟨start', hstart, hstands⟩, hread⟩ := ih t ht
    have hlead : Pass.after {} (cs.takeWhile isSeparator ++
        (w.text ++ after.takeWhile isBlank ++ [','])) = {} := by
      rw [Pass.after_append, (separators_takeWhile cs).after, Pass.after_append,
        (Written.piece_of_scan hw).2.2.after]
      rfl
    have hbehind := hstands.behind hlead
    have htext : cs.takeWhile isSeparator ++ (w.text ++ after.takeWhile isBlank ++ [',']) ++ more =
        cs := by
      calc
        _ = cs.takeWhile isSeparator ++ (w.text ++ (after.takeWhile isBlank ++ ',' :: more)) := by
          simp
        _ = cs.takeWhile isSeparator ++ (c :: rest) := by
          rw [← hd, List.takeWhile_append_dropWhile, Written.eq_text_of_scan hw]
        _ = cs := by rw [← hcs, List.takeWhile_append_dropWhile]
    rw [htext] at hbehind
    refine ⟨⟨_, ?_, hbehind⟩, hread⟩
    rw [hstart]
    simp only [width_append, width_cons, width_nil, stop, start]
    show _ + 1 + start' = pos + (_ + (_ + 1) + start')
    omega
  | case5 => simp [Scan.failed]

theorem Stands.argument {cs inside : List Char} {opened depth : Nat} {t : Token}
    (h : Stands cs opened depth ('(' :: inside ++ [')'])) (hcloses : Pass.closes {} inside = true)
    (ht : t ∈ (Token.scan (opened + 1) inside).items) : Stands cs t.start (depth + 1) t.text := by
  obtain ⟨⟨start, hstart, hargument⟩, -⟩ := Token.stands_of_scan _ _ t ht
  have hwhole := h.inside.trans hcloses hargument
  rwa [← hstart, Nat.zero_add] at hwhole

theorem Token.Lists.stands {t : Token} {c : Char} {rest after inside : List Char} {opened : Nat}
    (hw : Written.scan t.start c rest = .ok (t.written, after)) (h : t.Lists opened inside) :
    (∃ start, opened = t.start + start ∧ Stands t.text start 0 ('(' :: inside ++ [')'])) ∧
      Pass.closes {} inside = true := by
  obtain ⟨place, w⟩ := t
  cases w with
  | quoted => exact h.elim
  | number => exact h.elim
  | reference name => exact Path.Lists.stands h
  | list gap cs =>
    obtain ⟨rfl, rfl⟩ := h
    have hword := Written.skips_listWord (Written.blanks_of_scan hw)
    refine ⟨⟨width Written.listWord + width gap, Nat.add_assoc .., Written.listWord ++ gap, [], ?_,
      (width_append ..).symm, hword.after⟩, Written.checked_of_scan hw⟩
    simp [Token.text, Written.text]

/-! ### What is reached -/

/-- The argument lists that are come to when a tag is read: where they open, what
they hold, and how many of them stand around each. -/
inductive Path.Reaches (tag : List Char) : Nat → Nat → List Char → Prop where
  /-- The list of a segment of the tag. -/
  | segment {opened : Nat} {inside : List Char} :
    Path.Lists 0 tag opened inside → Path.Reaches tag 0 opened inside
  /-- A list in an argument of a list. -/
  | argument {n opened opened' : Nat} {inside inside' : List Char} {t : Token} :
    Path.Reaches tag n opened inside → t ∈ (Token.scan (opened + 1) inside).items →
    t.Lists opened' inside' → Path.Reaches tag (n + 1) opened' inside'

/-- **A list that is reached stands in the tag**, with as many parentheses open
before it as lists stand around it, and what it holds is closed. -/
theorem Path.Reaches.stands {tag inside : List Char} {n opened : Nat}
    (h : Reaches tag n opened inside) :
    Stands tag opened n ('(' :: inside ++ [')']) ∧ Pass.closes {} inside = true := by
  induction h with
  | segment hlists =>
    obtain ⟨⟨start, rfl, hstands⟩, hcloses⟩ := hlists.stands
    rw [Nat.zero_add]
    exact ⟨hstands, hcloses⟩
  | @argument n opened opened' inside inside' t _ ht hlists ih =>
    obtain ⟨-, c, rest, after, hw⟩ := Token.stands_of_scan _ _ t ht
    obtain ⟨⟨start, rfl, hlist⟩, hcloses⟩ := hlists.stands hw
    have hwhole := (ih.1.argument ih.2 ht).trans (Written.closes_text hw) hlist
    rw [Nat.zero_add] at hwhole
    exact ⟨hwhole, hcloses⟩

/-! ### Levels that are enough -/

/-- The list in a group nests one level less deep than the text around it. -/
theorem Stands.nestsWithin_inside {cs inside : List Char} {start depth limit : Nat}
    (h : Stands cs start depth ('(' :: inside ++ [')'])) (hcloses : Pass.closes {} inside = true)
    (hnests : Pass.NestsWithin limit cs) :
    depth < limit ∧ Pass.NestsWithin (limit - (depth + 1)) inside :=
  h.inside.nestsWithin hcloses hnests

/-- **Levels beyond the deepest parenthesis do not count** for an argument list. -/
theorem Arg.readList_of_nestsWithin : ∀ {levels levels' deepest opened : Nat}
    {inside : List Char}, Pass.NestsWithin deepest inside → Pass.closes {} inside = true →
    deepest < levels → deepest < levels' →
    readList levels opened inside = readList levels' opened inside
  | 0, _, _, _, _, _, _, h, _ => absurd h (Nat.not_lt_zero _)
  | _, 0, _, _, _, _, _, _, h => absurd h (Nat.not_lt_zero _)
  | levels + 1, levels' + 1, deepest, opened, inside, hnests, hcloses, h, h' => by
    refine Scan.traverse_congr fun t ht => read_congr fun opened' inside' hlists => ?_
    obtain ⟨⟨start, -, hargument⟩, c, rest, after, hw⟩ := Token.stands_of_scan _ _ t ht
    obtain ⟨⟨start', -, hlist⟩, hcloses'⟩ := hlists.stands hw
    obtain ⟨-, hdeep⟩ := hargument.nestsWithin (Written.closes_text hw) hnests
    obtain ⟨hlt, hdeeper⟩ := hlist.nestsWithin_inside hcloses' hdeep
    exact readList_of_nestsWithin hdeeper hcloses' (by omega) (by omega)

/-- **Levels beyond the deepest parenthesis do not count** for a path. -/
theorem Path.read_of_nestsWithin {levels levels' deepest pos : Nat} {cs : List Char}
    (hnests : Pass.NestsWithin deepest cs) (h : deepest ≤ levels) (h' : deepest ≤ levels') :
    read (Arg.readList levels) pos cs = read (Arg.readList levels') pos cs := by
  refine read_congr fun opened inside hlists => ?_
  obtain ⟨⟨start, -, hlist⟩, hcloses⟩ := hlists.stands
  obtain ⟨hlt, hdeeper⟩ := hlist.nestsWithin_inside hcloses hnests
  exact Arg.readList_of_nestsWithin hdeeper hcloses (by omega) (by omega)

end TagScope
