/-
# What stands in a group

What the parentheses of a group hold is closed: nothing is open at its end, and
nothing is closed in it that was opened before it (`Pass.closes_of_closesLast`).
A scanner that reads inside a group therefore never misses an end. A quoted text
has its mark, a parenthesis its partner, and a reference ends at a comma or with
the text. What is left to go wrong there is a character that begins no argument
(`Written.scan_eq_error`) or that stands where a name should
(`RawSegment.scanOne_eq_error`).

Key theorems: `Pass.closes_of_closesLast`, `Nesting.closes_inside`, `Written.scan_eq_error`,
`RawSegment.scanOne_eq_error`, `RawSegment.skips_text`.
-/
import TagScope.Proofs.Splitting

namespace TagScope

/-! ### Groups -/

namespace Pass

/-- The pass in a group, as it looks to a reader that begins in the group. -/
def within (p : Pass) : Pass := { p with depth := p.depth - 1 }

theorem within_next {p : Pass} {c : Char} (hd : p.depth ≠ 0)
    (h : p.quote = none → c = ')' → p.depth ≠ 1) :
    p.within.next c = (p.next c).within ∧ (p.next c).depth ≠ 0 := by
  obtain ⟨quote, depth⟩ := p
  rcases quote with _ | ⟨mark, escaped⟩
  · by_cases hm : Quoted.isMark c = true
    · simpa only [within, next, if_pos hm, true_and] using hd
    · by_cases ho : c = '('
      · simp only [within, next, if_neg hm, if_pos ho, Pass.mk.injEq, true_and]
        simp only at hd
        omega
      · by_cases hc : c = ')'
        · have hone : depth ≠ 1 := h rfl hc
          simp only [within, next, if_neg hm, if_neg ho, if_pos hc, true_and]
          simp only at hd
          omega
        · simpa only [within, next, if_neg hm, if_neg ho, if_neg hc, true_and] using hd
  · cases escaped with
    | true => exact ⟨rfl, hd⟩
    | false =>
      by_cases hm : c = mark
      · simpa only [within, next, if_pos hm, true_and] using hd
      · by_cases hb : c = '\\'
        · simpa only [within, next, if_neg hm, if_pos hb, true_and] using hd
        · simpa only [within, next, if_neg hm, if_neg hb, true_and] using hd

/-- **What a group holds is closed**: the last parenthesis closes the group and
no other before it does. -/
theorem closes_of_closesLast : ∀ {cs : List Char} {p : Pass}, p.depth ≠ 0 →
    p.closesLast (cs ++ [')']) = true → p.within.closes cs = true
  | [], p, hd, h => by
    simp only [List.nil_append, closesLast, Bool.and_eq_true] at h
    obtain ⟨quote, depth⟩ := p
    rcases quote with _ | ⟨mark, escaped⟩
    · have hnext : next ⟨none, depth⟩ ')' = ⟨none, depth - 1⟩ := rfl
      rw [hnext] at h
      exact h.2
    · -- a mark that closes a quoted text leaves the group open
      cases escaped with
      | true => simp [next, isClear] at h
      | false =>
        simp only [next] at h
        split at h
        · simp_all [isClear]
        · split at h <;> simp [isClear] at h
  | c :: cs, p, hd, h => by
    simp only [List.cons_append, closesLast, Bool.and_eq_true] at h
    have hrest := h.2
    have hopen : p.quote = none → c = ')' → p.depth ≠ 1 := by
      rintro hq rfl hone
      have hclear : (p.next ')').isClear = true := by
        simp [next, hq, Quoted.isMark, hone, isClear]
      cases cs <;> simp [closesLast, hclear] at hrest
    obtain ⟨hnext, hd'⟩ := within_next hd hopen
    have hparen : (p.within.isClear && c = ')') = false := by
      by_contra hc
      simp only [Bool.not_eq_false, Bool.and_eq_true, decide_eq_true_eq] at hc
      have hclear := eq_of_isClear hc.1
      have hdepth : p.depth - 1 = 0 := congrArg depth hclear
      exact hopen (congrArg quote hclear) hc.2 (by omega)
    rw [closes, hparen, hnext, closes_of_closesLast hd' hrest]
    rfl

theorem exists_close_of_closes {mark : Char} {cs : List Char} : ∀ {depth : Nat},
    closes ⟨some (mark, false), depth⟩ cs = true →
    ∃ body after, Quoted.close mark cs = some (body, after) := by
  fun_induction Quoted.close mark cs with
  | case1 => simp [closes, isClear]
  | case2 rest => exact fun _ => ⟨[], rest, rfl⟩
  | case3 hm =>
    intro depth
    simp [closes, next, hm, isClear]
  | case4 d rest hm ih =>
    intro depth h
    have hnext : next ⟨some (mark, false), depth⟩ '\\' = ⟨some (mark, true), depth⟩ := by
      simp [next, hm]
    simp only [closes, hnext, Bool.and_eq_true] at h
    obtain ⟨body, after, hclose⟩ := ih h.2.2
    exact ⟨'\\' :: d :: body, after, by rw [hclose]; rfl⟩
  | case5 c rest hm hb ih =>
    intro depth h
    have hnext : next ⟨some (mark, false), depth⟩ c = ⟨some (mark, false), depth⟩ := by
      simp [next, hm, hb]
    simp only [closes, hnext, Bool.and_eq_true] at h
    obtain ⟨body, after, hclose⟩ := ih h.2
    exact ⟨c :: body, after, by rw [hclose]; rfl⟩

/-- A quoted text that is open has been opened by a mark. -/
def Marked (p : Pass) : Prop :=
  ∀ mark escaped, p.quote = some (mark, escaped) → Quoted.isMark mark = true

theorem Marked.next {p : Pass} (hp : p.Marked) (c : Char) : (p.next c).Marked := by
  intro mark escaped h
  unfold Pass.next at h
  have := hp mark
  split at h <;> grind

theorem Marked.isClear_of_next {p : Pass} (hp : p.Marked) {c : Char} (hc : isBlank c = true)
    (h : (p.next c).isClear = true) : p.isClear = true := by
  obtain ⟨hm, ho, hparen, -⟩ := plain_of_isBlank hc
  obtain ⟨quote, depth⟩ := p
  rcases quote with _ | ⟨mark, escaped⟩
  · simpa [Pass.next, hm, ho, hparen] using h
  · have hne : c ≠ mark := by
      rintro rfl
      rw [hp c escaped rfl] at hm
      exact absurd hm (by simp)
    cases escaped with
    | true => simp [Pass.next, isClear] at h
    | false =>
      simp only [Pass.next, if_neg hne] at h
      split at h <;> simp [isClear] at h

theorem Marked.isClear_of_closes : ∀ {gap : List Char} {p : Pass}, p.Marked → Blanks gap →
    p.closes gap = true → p.isClear = true
  | [], _, _, _, h => h
  | c :: gap, p, hp, hgap, h => by
    simp only [closes, Bool.and_eq_true] at h
    have hclear := (hp.next c).isClear_of_closes (fun d hd => hgap d (List.mem_cons_of_mem _ hd))
      h.2
    exact hp.isClear_of_next (hgap c List.mem_cons_self) hclear

theorem Marked.closes_of_append {gap : List Char} (hgap : Blanks gap) :
    ∀ {cs : List Char} {p : Pass}, p.Marked → p.closes (cs ++ gap) = true → p.closes cs = true
  | [], _, hp, h => hp.isClear_of_closes hgap h
  | c :: cs, p, hp, h => by
    simp only [List.cons_append, closes, Bool.and_eq_true] at h
    rw [closes, h.1, (hp.next c).closes_of_append hgap h.2]
    rfl

end Pass

namespace Nesting

/-- What the parenthesis at `opened` holds is closed, and the pass goes over the
whole group. -/
theorem closes_inside {opened : Nat} {cs inside after : List Char}
    (h : close opened cs = .ok (inside, after)) :
    Pass.closes {} inside = true ∧ Pass.Skips {} {} ('(' :: inside ++ [')']) := by
  have hlast := closesLast_of_closeFrom (by simp) h
  exact ⟨Pass.closes_of_closesLast (by simp [pass]) hlast,
    .cons (fun _ => by decide) (.of_closesLast hlast)⟩

theorem exists_closeFrom : ∀ {cs : List Char} {n : Nesting} {pos : Nat}, n.depth ≠ 0 →
    n.pass.closes cs = true → ∃ inside after, closeFrom n pos cs = .ok (inside, after)
  | [], n, pos, hd, h => by
    rw [Pass.closes, isClear_pass] at h
    exact absurd h (not_isClear_of_depth hd)
  | c :: cs, n, pos, hd, h => by
    simp only [Pass.closes, Bool.and_eq_true, ← pass_step n pos] at h
    rw [closeFrom]
    by_cases hclear : (n.step pos c).isClear = true
    · exact ⟨[], cs, if_pos hclear⟩
    · obtain ⟨inside, after, hclose⟩ :=
        @exists_closeFrom cs _ (pos + c.utf8Size) (depth_step_ne_zero hd hclear) h.2
      exact ⟨c :: inside, after, by rw [if_neg hclear, hclose]; rfl⟩

theorem exists_close {opened : Nat} {cs : List Char} (h : Pass.closes {} ('(' :: cs) = true) :
    ∃ inside after, close opened cs = .ok (inside, after) :=
  exists_closeFrom (by simp) h

end Nesting

/-! ### Arguments -/

namespace Written

/-- **What can go wrong where an argument should begin**, if everything is closed
in the end: the character begins none. -/
theorem scan_eq_error {pos : Nat} {c : Char} {rest : List Char} {fault : Fault}
    (hcloses : Pass.closes {} (c :: rest) = true) (h : scan pos c rest = .error fault) :
    fault = ⟨.unexpectedChar c, .char pos c⟩ ∧ c ≠ '.' ∧ c ≠ ')' := by
  have hparen : c ≠ ')' := by
    rintro rfl
    simp [Pass.closes] at hcloses
  unfold scan at h
  split at h
  · rename_i hm
    have hnext : Pass.next {} c = ⟨some (c, false), 0⟩ := by simp [Pass.next, hm]
    simp only [Pass.closes, hnext, Bool.and_eq_true] at hcloses
    obtain ⟨body, after, hclose⟩ := Pass.exists_close_of_closes hcloses.2
    simp [hclose] at h
  · split at h
    · simp at h
    · split at h
      · rename_i gap inner hlist
        have hword := skips_listWord (blanks_of_listOpening? hlist)
        rw [eq_of_listOpening? hlist, (hword _).1] at hcloses
        obtain ⟨inside, after, hclose⟩ := @Nesting.exists_close (listOpened pos gap) _ hcloses
        simp [scanList, hclose, Except.map] at h
      · split at h
        · obtain ⟨before, after, hreach⟩ := @Nesting.exists_reachFrom (c :: rest) {} pos hcloses
          simp [scanReference, Nesting.reach, hreach, Except.map] at h
        · rename_i hstart
          have hdot : c ≠ '.' := by
            rintro rfl
            exact hstart (by decide)
          exact ⟨(Except.error.inj h).symm, hdot, hparen⟩

/-- What has been checked of an argument before it is read on: what stands in it
is closed, and a reference begins at once. -/
def Checked : Written → Prop
  | .list _ inside => Pass.closes {} inside = true
  | .reference name => Pass.closes {} name = true ∧ Stops isBlank name ∧ name ≠ []
  | .quoted _ _ => True
  | .number n => n.Proper

theorem checked_of_scan {pos : Nat} {c : Char} {rest after : List Char} {w : Written}
    (h : scan pos c rest = .ok (w, after)) : w.Checked := by
  obtain ⟨body, rfl, -, -⟩ | ⟨n, rfl, hn⟩ | ⟨gap, inner, inside, rfl, -, hclose⟩ |
    ⟨before, after', rfl, -, -, hstart, hreach⟩ := scan_cases h
  · trivial
  · exact Numeral.proper_of_scan? hn
  · exact (Nesting.closes_inside hclose).1
  · have hcomma : c ≠ ',' := by
      rintro rfl
      exact absurd hstart (by decide)
    obtain ⟨more, rfl⟩ := Nesting.reach_eq_cons hcomma hreach
    obtain ⟨name, hname⟩ := trimEnd_eq_cons (not_blank_of_startsReference hstart) more
    have hcloses := ((Nesting.skips_of_reach hreach).1 []).1
    rw [List.append_nil, ← trimEnd_append_blankEnd (c :: more)] at hcloses
    refine ⟨?_, ?_, by simp [hname]⟩
    · exact Pass.Marked.closes_of_append (blanks_blankEnd _) (by simp [Pass.Marked]) hcloses
    · rw [hname]
      exact stops_cons.2 (not_blank_of_startsReference hstart)

end Written

/-! ### Segments -/

namespace RawSegment

/-- Names open and close nothing, and a segment closes what it opens. -/
theorem skips_text {pos : Nat} {cs after : List Char} {s : RawSegment}
    (h : scanOne pos cs = .ok (s, after)) :
    Pass.Skips {} {} s.text ∧ ∀ inside ∈ s.inside, Pass.closes {} inside = true := by
  have hname := (isName_of_scanOne h).skips
  unfold scanOne at h
  dsimp only at h
  split at h
  · simp at h
  · split at h
    · obtain ⟨⟨inside, after'⟩, hclose, heq⟩ := map_eq_ok.1 h
      simp only [Prod.mk.injEq] at heq
      obtain ⟨rfl, rfl⟩ := heq
      obtain ⟨hinside, hgroup⟩ := Nesting.closes_inside hclose
      exact ⟨hname.trans hgroup, by simpa using hinside⟩
    · simp only [Except.ok.injEq, Prod.mk.injEq] at h
      obtain ⟨rfl, rfl⟩ := h
      exact ⟨by simpa [text] using hname, by simp⟩

theorem start_of_scanOne {pos : Nat} {cs after : List Char} {s : RawSegment}
    (h : scanOne pos cs = .ok (s, after)) : s.start = pos := by
  unfold scanOne at h
  dsimp only at h
  split at h
  · simp at h
  · split at h
    · obtain ⟨⟨inside, after'⟩, -, heq⟩ := map_eq_ok.1 h
      simp only [Prod.mk.injEq] at heq
      rw [← heq.1]
    · simp only [Except.ok.injEq, Prod.mk.injEq] at h
      rw [← h.1]

/-- What can go wrong with a segment: no name stands there, or its parenthesis
is not closed. -/
theorem scanOne_eq_error {pos : Nat} {cs : List Char} {fault : Fault}
    (h : scanOne pos cs = .error fault) : fault = misplaced pos cs ∨
      ∃ name inner, cs = name ++ '(' :: inner ∧
        Nesting.close (pos + width name) inner = .error fault ∧
        (Pass.closes {} cs = true → Pass.closes {} ('(' :: inner) = true) := by
  unfold scanOne at h
  dsimp only at h
  split at h
  · exact Or.inl (Except.error.inj h).symm
  · split at h
    · rename_i inner hd
      have hcs : cs = cs.takeWhile isNameChar ++ '(' :: inner := by
        rw [← hd, List.takeWhile_append_dropWhile]
      have hname : Pass.Skips {} {} (cs.takeWhile isNameChar) :=
        .of_plain rfl fun c hc => plain_of_isNameChar (List.mem_takeWhile_imp hc)
      refine Or.inr ⟨cs.takeWhile isNameChar, inner, hcs, ?_, fun hcloses => ?_⟩
      · exact map_eq_error.1 h
      · rw [hcs, (hname _).1] at hcloses
        exact hcloses
    · simp at h

/-- Where everything is closed in the end, a segment can only lack its name. -/
theorem scanOne_eq_misplaced {pos : Nat} {cs : List Char} {fault : Fault}
    (hcloses : Pass.closes {} cs = true) (h : scanOne pos cs = .error fault) :
    fault = misplaced pos cs := by
  obtain heq | ⟨name, inner, -, hclose, hinner⟩ := scanOne_eq_error h
  · exact heq
  · obtain ⟨inside, after, hok⟩ := @Nesting.exists_close (pos + width name) _ (hinner hcloses)
    rw [hok] at hclose
    simp at hclose

end RawSegment

end TagScope
