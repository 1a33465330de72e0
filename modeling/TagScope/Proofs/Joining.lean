/-
# Two lists with a comma between them

An argument that is complete stays as it is when a comma follows it, whatever
stands behind the comma: every scanner stops there at the latest, and none has
looked further (`Written.scan_append_comma`). And what stands before a comma has
no influence on what is read behind it but for its length. So two argument lists
with a comma between them give the arguments of the one and then those of the
other, and if the second has a fault, that is the fault of the whole, moved along
with the second list (`Token.scan_append_comma`, `splitArguments_append`).

The first list has to be one that is read to its end. The second may be any text.

Key definitions: `SyntaxError.shifted`.
Key theorems: `Written.scan_append_comma`, `Token.scan_append_comma`, `splitArguments_append`.
-/
import TagScope.Proofs.Moving
import TagScope.Proofs.Splitting

namespace TagScope

/-- The same error in the text `source`, in which the text of the error begins
at `offset`. -/
def SyntaxError.shifted (offset : Nat) (source : String) (e : SyntaxError) : SyntaxError :=
  { e with span := e.span.shift offset, source }

/-! ### What has been closed stays closed -/

theorem append_of_dropWhile_eq_cons {p : Char → Bool} {cs rest : List Char} {c : Char}
    (h : cs.dropWhile p = c :: rest) (more : List Char) :
    (cs ++ more).dropWhile p = c :: (rest ++ more) ∧
      (cs ++ more).takeWhile p = cs.takeWhile p := by
  have hc : p c = false := by
    have hstops := stops_dropWhile p cs
    rw [h] at hstops
    exact stops_cons.1 hstops
  have hsplit : cs ++ more = cs.takeWhile p ++ c :: (rest ++ more) := by
    rw [← List.cons_append, ← List.append_assoc, ← h, List.takeWhile_append_dropWhile]
  have hrun : ∀ d ∈ cs.takeWhile p, p d = true := fun _ hd => List.mem_takeWhile_imp hd
  rw [hsplit]
  exact ⟨dropWhile_append_stops hrun (stops_cons.2 hc),
    takeWhile_append_stops hrun (stops_cons.2 hc)⟩

theorem Quoted.close_append {mark : Char} {cs body after : List Char}
    (h : close mark cs = some (body, after)) (more : List Char) :
    close mark (cs ++ more) = some (body, after ++ more) := by
  fun_induction close mark cs generalizing body after with
  | case1 => simp at h
  | case2 rest =>
    simp only [Option.some.injEq, Prod.mk.injEq] at h
    rw [List.cons_append, close_mark, ← h.1, ← h.2]
  | case3 => simp at h
  | case4 hm d rest ih =>
    obtain ⟨⟨body', after'⟩, hc, heq⟩ := Option.map_eq_some_iff.1 h
    simp only [Prod.mk.injEq] at heq
    have hmark : mark ≠ '\\' := by
      rintro rfl
      exact absurd rfl ‹_›
    rw [List.cons_append, List.cons_append, close_escaped hmark, ih hc, ← heq.1, ← heq.2]
    rfl
  | case5 c rest hm hb ih =>
    obtain ⟨⟨body', after'⟩, hc, heq⟩ := Option.map_eq_some_iff.1 h
    simp only [Prod.mk.injEq] at heq
    rw [List.cons_append, close_cons hm hb, ih hc, ← heq.1, ← heq.2]
    rfl

namespace Nesting

theorem closeFrom_append_right (more : List Char) : ∀ {cs inside after : List Char} {n : Nesting}
    {pos : Nat}, closeFrom n pos cs = .ok (inside, after) →
    closeFrom n pos (cs ++ more) = .ok (inside, after ++ more)
  | [], _, _, _, _, h => by simp [closeFrom] at h
  | c :: cs, inside, after, n, pos, h => by
    rw [closeFrom] at h
    rw [List.cons_append, closeFrom]
    by_cases hclear : (n.step pos c).isClear = true
    · rw [if_pos hclear, Except.ok.injEq, Prod.mk.injEq] at h
      rw [if_pos hclear, ← h.1, ← h.2]
    · rw [if_neg hclear] at h
      obtain ⟨⟨inside', after'⟩, hrest, heq⟩ := map_eq_ok.1 h
      simp only [Prod.map, id, Prod.mk.injEq] at heq
      rw [if_neg hclear, closeFrom_append_right more hrest, ← heq.1, ← heq.2]
      rfl

theorem close_append_right {opened : Nat} {cs inside after : List Char}
    (h : close opened cs = .ok (inside, after)) (more : List Char) :
    close opened (cs ++ more) = .ok (inside, after ++ more) := closeFrom_append_right more h

theorem reachFrom_append_comma (more : List Char) : ∀ {cs before after : List Char} {n : Nesting}
    {pos : Nat}, reachFrom n pos cs = .ok (before, after) →
    reachFrom n pos (cs ++ ',' :: more) = .ok (before, after ++ ',' :: more)
  | [], before, after, n, pos, h => by
    rw [reachFrom] at h
    by_cases hn : n.isClear = true
    · rw [if_pos hn, Except.ok.injEq, Prod.mk.injEq] at h
      rw [← h.1, ← h.2]
      exact reachFrom_stop hn (by simp)
    · rw [if_neg hn] at h
      simp at h
  | c :: cs, before, after, n, pos, h => by
    rw [reachFrom] at h
    rw [List.cons_append, reachFrom]
    by_cases hcomma : (n.isClear && c = ',') = true
    · rw [if_pos hcomma, Except.ok.injEq, Prod.mk.injEq] at h
      rw [if_pos hcomma, ← h.1, ← h.2]
      rfl
    · rw [if_neg hcomma] at h
      rw [if_neg hcomma]
      by_cases hparen : (n.isClear && c = ')') = true
      · rw [if_pos hparen] at h
        simp at h
      · rw [if_neg hparen] at h
        obtain ⟨⟨before', after'⟩, hrest, heq⟩ := map_eq_ok.1 h
        simp only [Prod.map, id, Prod.mk.injEq] at heq
        rw [if_neg hparen, reachFrom_append_comma more hrest, ← heq.1, ← heq.2]
        rfl

theorem reach_append_comma {pos : Nat} {cs before after : List Char}
    (h : reach pos cs = .ok (before, after)) (more : List Char) :
    reach pos (cs ++ ',' :: more) = .ok (before, after ++ ',' :: more) :=
  reachFrom_append_comma more h

end Nesting

/-! ### One argument -/

namespace Written

theorem ends_comma (more : List Char) : Ends (',' :: more) := by
  intro c hc
  rw [dropWhile_stops (stops_cons.2 (by decide))] at hc
  simpa using hc.symm

theorem Ends.append_comma {rest : List Char} (h : Ends rest) (more : List Char) :
    Ends (rest ++ ',' :: more) := by
  intro c hc
  rw [List.dropWhile_append] at hc
  by_cases hblank : (rest.dropWhile isBlank).isEmpty = true
  · rw [if_pos hblank] at hc
    exact ends_comma more c hc
  · rw [if_neg hblank] at hc
    refine h c ?_
    cases hd : rest.dropWhile isBlank with
    | nil => exact absurd (by rw [hd]; rfl) hblank
    | cons d ds =>
      rw [hd] at hc
      simpa using hc

/-- **An argument stays as it is** when a comma is put behind the text in which
it is read. -/
theorem scan_append_comma {pos : Nat} {c : Char} {rest after : List Char} {w : Written}
    (h : scan pos c rest = .ok (w, after)) (hends : Ends after) (more : List Char) :
    scan pos c (rest ++ ',' :: more) = .ok (w, after ++ ',' :: more) := by
  have htext := eq_text_of_scan h
  obtain ⟨body, rfl, hm, hclose⟩ | ⟨n, rfl, hscan⟩ | ⟨gap, inner, inside, rfl, hlist, hclose⟩ |
    ⟨before, after', rfl, hnum, hlist, hstart, hreach⟩ := scan_cases h
  · rw [scan, if_pos hm, Quoted.close_append hclose]
  · have hproper := Numeral.proper_of_scan? hscan
    obtain ⟨d, digits, hd, -, hnumber⟩ := scan_number pos hproper (hends.append_comma more)
    rw [text, hd, List.cons_append, List.cons.injEq] at htext
    rw [htext.1, htext.2, List.append_assoc]
    exact hnumber
  · have hgap := blanks_of_listOpening? hlist
    have hopen := eq_of_listOpening? hlist
    simp only [listWord, List.cons_append, List.cons.injEq] at hopen
    obtain ⟨rfl, rfl⟩ := hopen
    have hshape : 'r' :: 'r' :: 'a' :: 'y' :: ([] ++ gap ++ '(' :: inner) ++ ',' :: more =
        ['r', 'r', 'a', 'y'] ++ gap ++ '(' :: (inner ++ ',' :: more) := by simp
    rw [hshape]
    exact scan_of_close hgap (Nesting.close_append_right hclose _)
  · -- the reference reaches to the comma now, if it did not before
    have hafter := eq_blankEnd_append hreach htext
    have hnum' : Numeral.scan? (c :: rest ++ ',' :: more) = none := by
      rw [Numeral.scan?_eq_none_iff] at hnum ⊢
      exact fun hs => hnum (hs.of_append (ends_comma more))
    have hlist' : listOpening? (c :: rest ++ ',' :: more) = none := by
      rw [listOpening?_eq_none_iff] at hlist ⊢
      exact fun hs => hlist (hs.of_append (ends_comma more))
    have hreach' := Nesting.reach_append_comma hreach more
    rw [List.cons_append] at hnum' hlist' hreach'
    rw [scan_of_reach hstart hnum' hlist' hreach', hafter, List.append_assoc]

end Written

/-! ### Whole lists -/

namespace Token

/-- **Separators only move** what stands behind them. -/
theorem scan_append_separators {seps : List Char} (h : Separators seps) (pos : Nat)
    (cs : List Char) : scan pos (seps ++ cs) = scan (pos + width seps) cs := by
  have hdrop : (seps ++ cs).dropWhile isSeparator = cs.dropWhile isSeparator :=
    List.dropWhile_append_of_pos h
  have hstart : pos + width ((seps ++ cs).takeWhile isSeparator) =
      pos + width seps + width (cs.takeWhile isSeparator) := by
    rw [List.takeWhile_append_of_pos h, width_append, Nat.add_assoc]
  cases hcs : cs.dropWhile isSeparator with
  | nil => rw [scan_nil (hdrop.trans hcs), scan_nil hcs]
  | cons c rest =>
    have hcs' := hdrop.trans hcs
    cases hw : Written.scan (pos + width seps + width (cs.takeWhile isSeparator)) c rest with
    | error fault => rw [scan_failed hcs hw, scan_failed hcs' (hstart ▸ hw)]
    | ok r =>
      obtain ⟨w, after⟩ := r
      have hw' := hw
      rw [← hstart] at hw'
      cases hd : after.dropWhile isBlank with
      | nil => rw [scan_last hcs hw hd, scan_last hcs' hw' hd, hstart]
      | cons d more =>
        by_cases hcomma : d = ','
        · subst hcomma
          rw [scan_comma hcs hw hd, scan_comma hcs' hw' hd, hstart]
        · rw [scan_unseparated hcs hw hd hcomma, scan_unseparated hcs' hw' hd hcomma, hstart]

/-- **A list that is read to its end, a comma and any text**: the arguments of
the list come first, and then what the text behind the comma gives. -/
theorem scan_append_comma (b : List Char) (pos : Nat) (a : List Char)
    (h : (scan pos a).fault = none) : scan pos (a ++ ',' :: b) =
      ⟨(scan pos a).items ++ (scan (pos + width a + 1) b).items,
        (scan (pos + width a + 1) b).fault⟩ := by
  have hsplit : ∀ (p : Char → Bool) (cs : List Char), width cs =
      width (cs.takeWhile p) + width (cs.dropWhile p) := by
    intro p cs
    rw [← width_append, List.takeWhile_append_dropWhile]
  fun_induction scan pos a with
  | case1 pos cs hcs =>
    have hseps : Separators (cs ++ [',']) := by
      intro c hc
      rcases List.mem_append.1 hc with hc | hc
      · exact List.dropWhile_eq_nil_iff.1 hcs c hc
      · rw [List.mem_singleton.1 hc]
        decide
    have hwhole := scan_append_separators hseps pos b
    rw [List.append_assoc, List.singleton_append, width_append, ← Nat.add_assoc] at hwhole
    exact hwhole
  | case2 => simp [Scan.failed] at h
  | case3 pos cs start c rest hcs w after hw hd =>
    have hends : Written.Ends after := by
      rw [Written.Ends, hd]
      simp
    obtain ⟨hdrop, htake⟩ := append_of_dropWhile_eq_cons hcs (',' :: b)
    have hblanks : Blanks after := List.dropWhile_eq_nil_iff.1 hd
    have hstops : Stops isBlank (',' :: b) := stops_cons.2 (by decide)
    have hscan := Written.scan_append_comma hw hends b
    have hnext : pos + width cs + 1 = start + width w.text + width after + 1 := by
      have hcs' := hsplit isSeparator cs
      rw [hcs, Written.eq_text_of_scan hw, width_append] at hcs'
      show pos + width cs + 1 = pos + width (cs.takeWhile isSeparator) + _ + _ + 1
      omega
    have hcomma := dropWhile_append_stops hblanks hstops
    rw [scan_comma hdrop (by rw [htake]; exact hscan) hcomma, htake,
      takeWhile_append_stops hblanks hstops, hnext]
    rfl
  | case4 pos cs start c rest hcs w after hw stop more hd ih =>
    have hends : Written.Ends after := by
      rw [Written.Ends, hd]
      simp
    obtain ⟨hdrop, htake⟩ := append_of_dropWhile_eq_cons hcs (',' :: b)
    obtain ⟨hdrop', htake'⟩ := append_of_dropWhile_eq_cons hd (',' :: b)
    have hscan := Written.scan_append_comma hw hends b
    have hnext : pos + width cs + 1 = stop + 1 + width more + 1 := by
      have hcs' := hsplit isSeparator cs
      have hafter := hsplit isBlank after
      rw [hcs, Written.eq_text_of_scan hw, width_append] at hcs'
      rw [hd, width_cons, show ','.utf8Size = 1 from rfl] at hafter
      show pos + width cs + 1 =
        pos + width (cs.takeWhile isSeparator) + width w.text + _ + 1 + width more + 1
      omega
    rw [scan_comma hdrop (by rw [htake]; exact hscan) hdrop', htake, htake', ih h, hnext]
    rfl
  | case5 => simp [Scan.failed] at h

end Token

/-! ### The arguments as they are written -/

theorem splitArguments_eq_error {input : String} {e : SyntaxError} :
    splitArguments input = .error e ↔
      ∃ fault, (scanArguments input).fault = some fault ∧ e = fault.within input := by
  unfold splitArguments Scan.toExcept
  cases (scanArguments input).fault with
  | none => simp
  | some fault => simp [eq_comm]

/-- Two lists with a comma between them, as they are scanned. -/
theorem scanArguments_append {a : String} (h : (scanArguments a).fault = none) (b : String) :
    scanArguments (a ++ "," ++ b) =
      ⟨(scanArguments a).items ++
          (scanArguments b).items.map (Token.moved (width a.toList + 1)),
        (scanArguments b).fault.map (Fault.shift (width a.toList + 1))⟩ := by
  have htext : (a ++ "," ++ b).toList = a.toList ++ ',' :: b.toList := by simp
  have hjoined := Token.scan_append_comma b.toList 0 a.toList h
  have hmoved := Token.scan_add (width a.toList + 1) 0 b.toList
  rw [Nat.zero_add] at hmoved
  rw [Nat.zero_add, hmoved] at hjoined
  rw [scanArguments, htext, hjoined]
  rfl

/-- **Splitting takes a comma between two lists to their concatenation.** Where
the first list is split, the whole is split exactly if the second is, and into
the arguments of both; otherwise it fails with the error of the second, which
points at the same place in the second list. The kinds and the spans of the
arguments that are found, before a fault or without one, are those of the two
lists, the spans of the second moved along. -/
theorem splitArguments_append (a b : String) (parts : List String)
    (h : splitArguments a = .ok parts) :
    (∀ more, splitArguments b = .ok more → splitArguments (a ++ "," ++ b) = .ok (parts ++ more)) ∧
      (∀ e, splitArguments b = .error e → splitArguments (a ++ "," ++ b) =
        .error (e.shifted (width a.toList + 1) (a ++ "," ++ b))) ∧
      (scanArguments (a ++ "," ++ b)).items.map (fun t => (t.written.kind, t.span)) =
        (scanArguments a).items.map (fun t => (t.written.kind, t.span)) ++
          (scanArguments b).items.map
            (fun t => (t.written.kind, t.span.shift (width a.toList + 1))) ∧
      (scanArguments (a ++ "," ++ b)).fault =
        (scanArguments b).fault.map (Fault.shift (width a.toList + 1)) := by
  obtain ⟨hfault, rfl⟩ := splitArguments_eq_ok.1 h
  have hjoined := scanArguments_append hfault b
  refine ⟨fun more hmore => ?_, fun e he => ?_, ?_, by rw [hjoined]⟩
  · obtain ⟨hfault', rfl⟩ := splitArguments_eq_ok.1 hmore
    refine splitArguments_eq_ok.2 ⟨by rw [hjoined, hfault']; rfl, ?_⟩
    rw [hjoined, List.map_append, List.map_map]
    rfl
  · obtain ⟨fault, hfault', rfl⟩ := splitArguments_eq_error.1 he
    refine splitArguments_eq_error.2 ⟨fault.shift (width a.toList + 1), ?_, rfl⟩
    rw [hjoined, hfault']
    rfl
  · have hspan : ∀ t : Token, (t.moved (width a.toList + 1)).span =
        t.span.shift (width a.toList + 1) := fun _ => (Span.shift_covering ..).symm
    have hkind : ∀ t : Token, (t.moved (width a.toList + 1)).written.kind = t.written.kind :=
      fun _ => rfl
    rw [hjoined, List.map_append, List.map_map]
    refine congrArg (_ ++ ·) (List.map_congr_left fun t _ => ?_)
    rw [Function.comp_apply, hspan, hkind]

/-- A fault in the second list, behind an argument of each. -/
theorem splitArguments_append_fault :
    splitArguments "é, 1" = .ok ["é", "1"] ∧
      splitArguments "x, !" = .error ⟨.unexpectedChar '!', ⟨3, 4⟩, "x, !"⟩ ∧
      splitArguments ("é, 1" ++ "," ++ "x, !") =
        .error ((⟨.unexpectedChar '!', ⟨3, 4⟩, "x, !"⟩ : SyntaxError).shifted 6
          ("é, 1" ++ "," ++ "x, !")) := by
  have hfirst : splitArguments "é, 1" = .ok ["é", "1"] := by decide +kernel
  have hsecond : splitArguments "x, !" = .error ⟨.unexpectedChar '!', ⟨3, 4⟩, "x, !"⟩ := by
    decide +kernel
  exact ⟨hfirst, hsecond, (splitArguments_append "é, 1" "x, !" _ hfirst).2.1 _ hsecond⟩

end TagScope
