/-
# Scanning by places

Each scanner of arguments can also be written for a text that is never cut: it gets the
place where something begins and says at which place it ends. Here a place is a number of
bytes and a scanner looks at the text from a place on only through `tail?`, `slice?` and
`byte?`, so it would give nothing at a place inside a character or behind the end.

Where a character begins, each of them gives an answer, and it is the one of the scanner
of characters: a quoted text or a group ends where `Quoted.close` and `Nesting.close` say,
a reference where `Nesting.reach` says, and a list opens where `Written.listOpening?` says.
The depth of a group is never taken below zero, since the scan begins at its parenthesis
and ends as soon as the depth is zero again. To see that both scanners agree, quoted texts
and groups are passed over as a whole in the scanner of characters, too
(`Nesting.closeFrom_mark`, `Nesting.reachFrom_mark`, `Nesting.reachFrom_group`).

Key definitions: `scanString`, `scanGroup`, `scanReference`, `arrayOpen`.
Key theorems: `scanString_eq`, `scanGroup_eq`, `scanReference_eq`, `arrayOpen_eq`.
-/
import TagScope.Proofs.Enclosed
import TagScope.Proofs.Slices

namespace TagScope

/-! ### Quoted texts and groups as a whole -/

theorem Quoted.ne_of_isMark {mark : Char} (h : isMark mark = true) :
    mark ≠ '\\' ∧ mark ≠ ',' ∧ mark ≠ ')' := by
  simp only [isMark, Bool.or_eq_true, decide_eq_true_eq] at h
  rcases h with rfl | rfl <;> decide

theorem Quoted.size_of_isMark {mark : Char} (h : isMark mark = true) : mark.utf8Size = 1 := by
  simp only [isMark, Bool.or_eq_true, decide_eq_true_eq] at h
  rcases h with rfl | rfl <;> rfl

namespace Nesting

variable {mark : Char} {cs rest inside after : List Char} {n : Nesting} {pos opened : Nat}

/-- Where a quoted text is not closed it stays open, and that is what is wrong. -/
theorem after_unterminated (hm : Quoted.isMark mark = true) (h : Quoted.close mark cs = none) :
    ∀ {n : Nesting} (pos : Nat), n.quote = .inside mark opened →
      n.StaysOpen pos cs ∧ ¬ (n.after pos cs).isClear = true ∧
        ∀ stop, (n.after pos cs).fault stop = ⟨.unterminatedString, ⟨opened, stop⟩⟩ := by
  have hs := (Quoted.ne_of_isMark hm).1
  have hescape : ∀ {n : Nesting} (pos : Nat), n.quote = .inside mark opened →
      n.step pos '\\' = { n with quote := .escaped mark opened } := fun pos hq => by
    simp [step, hq, hs.symm]
  fun_induction Quoted.close mark cs with
  | case1 =>
    intro n pos hq
    exact ⟨trivial, by simp [isClear, hq], fun stop => by simp [fault, hq]⟩
  | case2 => simp at h
  | case3 =>
    intro n pos hq
    rw [after_cons, after_nil, StaysOpen, hescape pos hq]
    exact ⟨⟨by simp [isClear], trivial⟩, by simp [isClear], fun stop => rfl⟩
  | case4 d rest hne ih =>
    intro n pos hq
    have hback : ∀ p, ({ n with quote := .escaped mark opened } : Nesting).step p d = n := by
      obtain ⟨quote, depth, op⟩ := n
      simp only at hq
      simp [step, hq]
    obtain ⟨hopen, hafter⟩ := ih (Option.map_eq_none_iff.1 h) (pos + '\\'.utf8Size + d.utf8Size) hq
    rw [after_cons, after_cons, StaysOpen, StaysOpen, hescape pos hq, hback]
    exact ⟨⟨by simp [isClear], by simp [isClear, hq], hopen⟩, hafter⟩
  | case5 d rest hne hplain ih =>
    intro n pos hq
    have hstep : n.step pos d = n := by simp [step, hq, hne, hplain]
    obtain ⟨hopen, hafter⟩ := ih (Option.map_eq_none_iff.1 h) (pos + d.utf8Size) hq
    rw [after_cons, StaysOpen, hstep]
    exact ⟨⟨by simp [isClear, hq], hopen⟩, hafter⟩

/-- **A quoted text in a group** is passed over whole, or it is what is wrong. -/
theorem closeFrom_mark (hm : Quoted.isMark mark = true) (hq : n.quote = .outside)
    (hd : n.depth ≠ 0) : closeFrom n pos (mark :: cs) =
      match Quoted.close mark cs with
      | none => .error ⟨.unterminatedString, .covering pos (mark :: cs)⟩
      | some (body, after) =>
        (closeFrom n (pos + width (mark :: body ++ [mark])) after).map
          (Prod.map (mark :: body ++ [mark] ++ ·) id) := by
  cases hc : Quoted.close mark cs with
  | none =>
    have hstep := step_mark hq hm pos
    obtain ⟨hopen, -, hfault⟩ := @after_unterminated mark cs pos hm hc (n.step pos mark)
      (pos + mark.utf8Size) (by rw [hstep])
    have hstays : n.StaysOpen pos (mark :: cs) := ⟨by rw [hstep]; simp [isClear], hopen⟩
    rw [← List.append_nil (mark :: cs), closeFrom_append hstays, after_cons, closeFrom, hfault]
    rw [List.append_nil]
    rfl
  | some r =>
    obtain ⟨body, after⟩ := r
    have hbody := Quoted.body_of_close hc
    obtain ⟨hafter, hopen, -⟩ := Balanced.after_quoted hm hbody hq pos
    have hsplit : mark :: cs = (mark :: body ++ [mark]) ++ after := by
      rw [Quoted.close_eq_some hc]
      simp
    rw [hsplit, closeFrom_append (hopen hd), hafter]

/-- **A quoted text in a reference** likewise. -/
theorem reachFrom_mark (hm : Quoted.isMark mark = true) (hq : n.quote = .outside) :
    reachFrom n pos (mark :: cs) =
      match Quoted.close mark cs with
      | none => .error ⟨.unterminatedString, .covering pos (mark :: cs)⟩
      | some (body, after) =>
        (reachFrom n (pos + width (mark :: body ++ [mark])) after).map
          (Prod.map (mark :: body ++ [mark] ++ ·) id) := by
  cases hc : Quoted.close mark cs with
  | none =>
    have hstep := step_mark hq hm pos
    have hinside : (n.step pos mark).quote = .inside mark pos := by rw [hstep]
    have hclear : ¬ (n.step pos mark).isClear = true := by simp [isClear, hinside]
    obtain ⟨hopen, hafter, hfault⟩ := after_unterminated hm hc (pos + mark.utf8Size) hinside
    have hpasses : n.Passes pos (mark :: cs) :=
      ⟨fun _ => (Quoted.ne_of_isMark hm).2, hopen.passes hclear⟩
    rw [← List.append_nil (mark :: cs), reachFrom_append hpasses, after_cons, reachFrom,
      if_neg hafter, hfault, List.append_nil]
    rfl
  | some r =>
    obtain ⟨body, after⟩ := r
    obtain ⟨hafter, -, hpasses⟩ := Balanced.after_quoted hm (Quoted.body_of_close hc) hq pos
    have hsplit : mark :: cs = (mark :: body ++ [mark]) ++ after := by
      rw [Quoted.close_eq_some hc]
      simp
    rw [hsplit, reachFrom_append hpasses, hafter]

/-- Up to the end of a group it makes no difference that a reference is read. -/
theorem reachFrom_of_closeFrom : ∀ {cs : List Char} {n : Nesting} {pos : Nat}, n.depth ≠ 0 →
    (∀ fault, closeFrom n pos cs = .error fault → reachFrom n pos cs = .error fault) ∧
    ∀ inside after, closeFrom n pos cs = .ok (inside, after) → ∃ m : Nesting, m.isClear = true ∧
      reachFrom n pos cs = (reachFrom m (pos + width inside + 1) after).map
        (Prod.map (inside ++ ')' :: ·) id)
  | [], n, pos, hd => by
    simp [closeFrom, reachFrom, not_isClear_of_depth hd]
  | c :: cs, n, pos, hd => by
    have hn := not_isClear_of_depth hd
    have hreach : reachFrom n pos (c :: cs) =
        (reachFrom (n.step pos c) (pos + c.utf8Size) cs).map (Prod.map (c :: ·) id) := by
      simp [reachFrom, hn]
    rw [hreach, closeFrom]
    by_cases hclear : (n.step pos c).isClear = true
    · obtain rfl := eq_paren_of_isClear_step hd hclear
      simp only [if_pos hclear, reduceCtorEq, false_implies, implies_true, true_and,
        Except.ok.injEq, Prod.mk.injEq, and_imp]
      rintro _ _ rfl rfl
      exact ⟨_, hclear, rfl⟩
    · obtain ⟨herror, hok⟩ := @reachFrom_of_closeFrom cs _ (pos + c.utf8Size)
        (depth_step_ne_zero hd hclear)
      simp only [if_neg hclear]
      refine ⟨fun fault h => ?_, fun inside after h => ?_⟩
      · rw [herror fault (map_eq_error.1 h)]
        rfl
      · obtain ⟨⟨inside', after'⟩, hclose, heq⟩ := map_eq_ok.1 h
        simp only [Prod.map, id, Prod.mk.injEq] at heq
        obtain ⟨rfl, rfl⟩ := heq
        obtain ⟨m, hm, hrest⟩ := hok _ _ hclose
        refine ⟨m, hm, ?_⟩
        rw [hrest, width_cons, ← Nat.add_assoc]
        cases reachFrom m (pos + c.utf8Size + width inside' + 1) after' <;> rfl

/-- **A group in a reference** is passed over whole, or what is wrong with it is what is
wrong. -/
theorem reachFrom_group (hn : n.isClear = true) :
    (∀ fault, close pos cs = .error fault → reachFrom n pos ('(' :: cs) = .error fault) ∧
    ∀ inside after, close pos cs = .ok (inside, after) → ∃ m : Nesting, m.isClear = true ∧
      reachFrom n pos ('(' :: cs) = (reachFrom m (pos + 1 + width inside + 1) after).map
        (Prod.map ('(' :: inside ++ ')' :: ·) id) := by
  obtain ⟨hd, hq⟩ := isClear_iff.1 hn
  have hstep : n.step pos '(' = { depth := 1, opened := pos } := by
    rw [step_open hq, if_pos hd, hd, hq]
  have hreach : reachFrom n pos ('(' :: cs) =
      (reachFrom { depth := 1, opened := pos } (pos + 1) cs).map (Prod.map ('(' :: ·) id) := by
    rw [reachFrom, if_neg (by simp), if_neg (by simp), hstep]
    rfl
  obtain ⟨herror, hok⟩ := @reachFrom_of_closeFrom cs { depth := 1, opened := pos } (pos + 1)
    (Nat.succ_ne_zero _)
  rw [hreach]
  refine ⟨fun fault h => ?_, fun inside after h => ?_⟩
  · rw [herror fault h]
    rfl
  · obtain ⟨m, hm, hrest⟩ := hok inside after h
    refine ⟨m, hm, ?_⟩
    rw [hrest]
    cases reachFrom m (pos + 1 + width inside + 1) after <;> rfl

end Nesting

namespace InBytes

theorem map_stop {x : Except Fault (List Char × List Char)} {f : List Char → List Char}
    {pos next : Nat} (hf : ∀ cs, pos + width (f cs) = next + width cs) :
    (x.map (Prod.map f id)).map (fun r => pos + width r.1) = x.map fun r => next + width r.1 := by
  cases x with
  | error fault => rfl
  | ok r => exact congrArg Except.ok (hf r.1)

/-! ### The scanners -/

/-- How far behind an opening mark its closing mark stands, from the characters that begin
`i` bytes behind it. -/
def closing? (mark : Char) (i : Nat) : List Char → Option Nat
  | [] => none
  | c :: rest =>
    if c = '\\' then
      match rest with
      | [] => none
      | d :: rest => closing? mark (i + c.utf8Size + d.utf8Size) rest
    else if c = mark then some i
    else closing? mark (i + c.utf8Size) rest

/-- Where the quoted text ends that begins at `start`. -/
def scanString (src : List Char) (start : Nat) : Guarded Nat := do
  match ← tail? src start with
  | [] => throw ⟨.unterminatedString, .empty start⟩
  | mark :: rest =>
    match closing? mark mark.utf8Size rest with
    | some i => pure (start + i + 1)
    | none => throw ⟨.unterminatedString, ⟨start, width src⟩⟩

variable {src cs rest : List Char} {pos start : Nat} {mark c : Char}

theorem closing?_eq (hm : mark ≠ '\\') (i : Nat) (cs : List Char) :
    closing? mark i cs = (Quoted.close mark cs).map fun r => i + width r.1 := by
  fun_induction Quoted.close mark cs generalizing i with
  | case1 => rfl
  | case2 rest =>
    rw [closing?.eq_def]
    simp only [if_neg hm, if_true]
    rfl
  | case3 => simp [closing?]
  | case4 d rest _ ih =>
    simp only [closing?, if_true, ih, Option.map_map]
    congr 1
    funext r
    simp only [Function.comp, width_cons, Nat.add_assoc]
  | case5 d rest hne hplain ih =>
    rw [closing?.eq_def]
    simp only [if_neg hne, if_neg hplain, ih, Option.map_map]
    congr 1
    funext r
    simp only [Function.comp, width_cons, Nat.add_assoc]

/-- **A quoted text ends** behind its closing mark. -/
theorem scanString_eq (hm : Quoted.isMark mark = true) (h : tail? src start = some (mark :: rest)) :
    scanString src start = answer (match Quoted.close mark rest with
      | none => .error ⟨.unterminatedString, .covering start (mark :: rest)⟩
      | some (body, _) => .ok (start + width (mark :: body ++ [mark]))) := by
  have hsize := Quoted.size_of_isMark hm
  have hwidth := width_of_tail? h
  unfold scanString
  rw [h]
  simp only [lift_some_bind, closing?_eq (Quoted.ne_of_isMark hm).1]
  cases hc : Quoted.close mark rest with
  | none =>
    rw [hwidth]
    rfl
  | some r =>
    have hbody : start + (mark.utf8Size + width r.1) + 1 =
        start + width (mark :: r.1 ++ [mark]) := by
      rw [width_append, width_cons, width_cons, width_nil, hsize]
      omega
    simp only [Option.map_some, hbody]
    rfl

theorem of_scanString_eq_error {fault : Fault} (hm : Quoted.isMark mark = true)
    (h : tail? src start = some (mark :: rest))
    (hs : scanString src start = answer (.error fault)) :
    Quoted.close mark rest = none ∧
      fault = ⟨.unterminatedString, .covering start (mark :: rest)⟩ := by
  rw [scanString_eq hm h] at hs
  cases hc : Quoted.close mark rest with
  | none =>
    rw [hc] at hs
    exact ⟨rfl, (Except.error.inj (Option.some.inj hs)).symm⟩
  | some r =>
    rw [hc] at hs
    cases hs

theorem of_scanString_eq_ok {next : Nat} (hm : Quoted.isMark mark = true)
    (h : tail? src start = some (mark :: rest)) (hs : scanString src start = answer (.ok next)) :
    ∃ body after, Quoted.close mark rest = some (body, after) ∧
      next = start + width (mark :: body ++ [mark]) ∧ tail? src next = some after := by
  rw [scanString_eq hm h] at hs
  cases hc : Quoted.close mark rest with
  | none =>
    rw [hc] at hs
    cases hs
  | some r =>
    obtain ⟨body, after⟩ := r
    rw [hc] at hs
    obtain rfl := Except.ok.inj (Option.some.inj hs)
    refine ⟨body, after, rfl, rfl, tail?_add ?_⟩
    rw [h, Quoted.close_eq_some hc]
    simp

theorem lt_of_scanString {next : Nat} (h : scanString src start = answer (.ok next)) :
    start < next := by
  unfold scanString at h
  cases ht : tail? src start with
  | none =>
    rw [ht] at h
    cases h
  | some cs =>
    rw [ht, lift_some_bind] at h
    cases cs with
    | nil => cases h
    | cons mark rest =>
      simp only at h
      split at h
      · obtain rfl := Except.ok.inj (Option.some.inj h)
        omega
      · cases h

/-- From a place on where so many groups are open: the place of the parenthesis that closes
them all. `opened` is where the outermost was opened. -/
def scanGroupFrom (src : List Char) (opened depth pos : Nat) : Guarded Nat :=
  match _h : tail? src pos with
  | none => none
  | some [] => throw ⟨.unclosedParen, ⟨opened, opened + 1⟩⟩
  | some (c :: _) =>
    if c = '(' then scanGroupFrom src opened (depth + 1) (pos + c.utf8Size)
    else if c = ')' then do
      let depth ← sub? depth 1
      if depth = 0 then pure pos else scanGroupFrom src opened depth (pos + c.utf8Size)
    else if Quoted.isMark c then
      match _hs : scanString src pos with
      | none => none
      | some (.error fault) => throw fault
      | some (.ok next) => scanGroupFrom src opened depth next
    else scanGroupFrom src opened depth (pos + c.utf8Size)
termination_by width src - pos
decreasing_by
  all_goals
    have hlt := lt_of_tail? _h
  · have := c.utf8Size_pos; omega
  · have := c.utf8Size_pos; omega
  · have := lt_of_scanString _hs; omega
  · have := c.utf8Size_pos; omega

/-- The depth is not zero before the parenthesis that ends the group. -/
theorem scanGroupFrom_eq {opened depth : Nat} (hd : depth ≠ 0) (h : tail? src pos = some cs) :
    scanGroupFrom src opened depth pos = answer
      ((Nesting.closeFrom ⟨.outside, depth, opened⟩ pos cs).map fun r => pos + width r.1) := by
  fun_induction scanGroupFrom src opened depth pos generalizing cs with
  | case1 depth pos hnone =>
    rw [hnone] at h
    simp at h
  | case2 depth pos hnil =>
    obtain rfl := Option.some.inj (hnil.symm.trans h)
    rfl
  | case3 depth pos rest hcons ih =>
    obtain rfl := Option.some.inj (hcons.symm.trans h)
    have hstep := Nesting.step_open (n := ⟨.outside, depth, opened⟩) rfl pos
    rw [if_neg hd] at hstep
    rw [ih (Nat.succ_ne_zero _) (tail?_next h), Nesting.closeFrom, hstep,
      if_neg (Nesting.not_isClear_of_depth (Nat.succ_ne_zero _)),
      map_stop fun cs => by rw [width_cons, Nat.add_assoc]]
  | case4 depth pos rest hcons hne ih =>
    obtain rfl := Option.some.inj (hcons.symm.trans h)
    obtain ⟨depth, rfl⟩ := Nat.exists_eq_succ_of_ne_zero hd
    have hstep := Nesting.step_close (n := ⟨.outside, depth + 1, opened⟩) rfl pos
    rw [show sub? (depth + 1) 1 = some depth from sub?_add depth 1, lift_some_bind,
      Nesting.closeFrom, hstep]
    by_cases hlast : depth = 0
    · subst hlast
      rfl
    · rw [if_neg hlast, ih depth hlast (tail?_next h), if_neg (Nesting.not_isClear_of_depth hlast),
        map_stop fun cs => by rw [width_cons, Nat.add_assoc]]
      rfl
  | case5 depth pos c rest hcons hopen hclose hm hnone =>
    rw [scanString_eq hm hcons] at hnone
    cases hnone
  | case6 depth pos c rest hcons hopen hclose hm fault hs =>
    obtain rfl := Option.some.inj (hcons.symm.trans h)
    obtain ⟨hc, rfl⟩ := of_scanString_eq_error hm hcons hs
    rw [Nesting.closeFrom_mark hm rfl hd, hc]
    rfl
  | case7 depth pos c rest hcons hopen hclose hm next hs ih =>
    obtain rfl := Option.some.inj (hcons.symm.trans h)
    obtain ⟨body, after, hc, rfl, hnext⟩ := of_scanString_eq_ok hm hcons hs
    rw [ih hd hnext, Nesting.closeFrom_mark hm rfl hd, hc]
    simp only
    rw [map_stop fun cs => by rw [width_append, Nat.add_assoc]]
  | case8 depth pos c rest hcons hopen hclose hm ih =>
    obtain rfl := Option.some.inj (hcons.symm.trans h)
    have hstep := Nesting.step_plain (n := ⟨.outside, depth, opened⟩) rfl (by simpa using hm)
      hopen hclose pos
    rw [ih hd (tail?_next h), Nesting.closeFrom, hstep, if_neg (Nesting.not_isClear_of_depth hd),
      map_stop fun cs => by rw [width_cons, Nat.add_assoc]]

/-- The place of the parenthesis that closes the one at `opened`. -/
def scanGroup (src : List Char) (opened : Nat) : Guarded Nat := scanGroupFrom src opened 0 opened

/-- **A group ends** at the parenthesis that closes it. -/
theorem scanGroup_eq (h : tail? src start = some ('(' :: rest)) : scanGroup src start =
    answer ((Nesting.close start rest).map fun r => start + 1 + width r.1) := by
  rw [scanGroup, scanGroupFrom]
  split
  · rename_i hnone
    rw [hnone] at h
    cases h
  · rename_i hnil
    rw [hnil] at h
    cases h
  · rename_i c tail hcons
    obtain ⟨rfl, rfl⟩ := List.cons.inj (Option.some.inj (hcons.symm.trans h))
    exact scanGroupFrom_eq (Nat.succ_ne_zero _) (tail?_next h)

theorem of_scanGroup_eq_error {fault : Fault} (h : tail? src start = some ('(' :: rest))
    (hs : scanGroup src start = answer (.error fault)) :
    Nesting.close start rest = .error fault := by
  rw [scanGroup_eq h] at hs
  exact map_eq_error.1 (Option.some.inj hs)

theorem of_scanGroup_eq_ok {closed : Nat} (h : tail? src start = some ('(' :: rest))
    (hs : scanGroup src start = answer (.ok closed)) : ∃ inside after,
      Nesting.close start rest = .ok (inside, after) ∧ closed = start + 1 + width inside ∧
      tail? src closed = some (')' :: after) := by
  rw [scanGroup_eq h] at hs
  obtain ⟨⟨inside, after⟩, hclose, rfl⟩ := map_eq_ok.1 (Option.some.inj hs)
  refine ⟨inside, after, hclose, rfl, tail?_add ?_⟩
  rw [← Nesting.eq_of_close hclose]
  exact tail?_next h

/-- Where the reference ends that begins at `pos`, or goes on there outside of groups. -/
def scanReference (src : List Char) (pos : Nat) : Guarded Nat :=
  match _h : tail? src pos with
  | none => none
  | some [] => pure pos
  | some (c :: _) =>
    if c = ',' then pure pos
    else if _hopen : c = '(' then
      match _hs : scanGroup src pos with
      | none => none
      | some (.error fault) => throw fault
      | some (.ok closed) => scanReference src (closed + 1)
    else if c = ')' then throw ⟨.unmatchedParen, ⟨pos, pos + 1⟩⟩
    else if Quoted.isMark c then
      match _hs : scanString src pos with
      | none => none
      | some (.error fault) => throw fault
      | some (.ok next) => scanReference src next
    else scanReference src (pos + c.utf8Size)
termination_by width src - pos
decreasing_by
  all_goals
    have hlt := lt_of_tail? _h
  · subst _hopen
    obtain ⟨inside, -, -, rfl, -⟩ := of_scanGroup_eq_ok _h _hs
    omega
  · have := lt_of_scanString _hs
    omega
  · have := c.utf8Size_pos
    omega

/-- **A reference ends** where it reaches to. -/
theorem scanReference_eq {n : Nesting} (hn : n.isClear = true) (h : tail? src pos = some cs) :
    scanReference src pos = answer ((Nesting.reachFrom n pos cs).map fun r => pos + width r.1) := by
  fun_induction scanReference src pos generalizing cs n with
  | case1 pos hnone =>
    rw [hnone] at h
    cases h
  | case2 pos hnil =>
    obtain rfl := Option.some.inj (hnil.symm.trans h)
    rw [Nesting.reachFrom, if_pos hn]
    rfl
  | case3 pos rest hcons =>
    obtain rfl := Option.some.inj (hcons.symm.trans h)
    rw [Nesting.reachFrom_stop hn (by simp)]
    rfl
  | case4 pos rest hnone hcons =>
    rw [scanGroup_eq hcons] at hnone
    cases hnone
  | case5 pos rest fault hs hcons =>
    obtain rfl := Option.some.inj (hcons.symm.trans h)
    rw [(Nesting.reachFrom_group hn).1 fault (of_scanGroup_eq_error hcons hs)]
    rfl
  | case6 pos rest closed hs hcons _ ih =>
    obtain rfl := Option.some.inj (hcons.symm.trans h)
    obtain ⟨inside, after, hclose, rfl, hclosed⟩ := of_scanGroup_eq_ok hcons hs
    obtain ⟨m, hm, hrest⟩ := (Nesting.reachFrom_group hn).2 inside after hclose
    rw [ih hm (tail?_next hclosed), hrest, map_stop fun cs => ?_]
    rw [List.cons_append, width_cons, width_append, width_cons]
    show pos + (1 + (width inside + (1 + width cs))) = _
    omega
  | case7 pos rest hcons =>
    obtain rfl := Option.some.inj (hcons.symm.trans h)
    rw [Nesting.reachFrom, if_neg (by simp), if_pos (by simp [hn])]
    rfl
  | case8 pos c rest hcons _ _ _ hm hnone =>
    rw [scanString_eq hm hcons] at hnone
    cases hnone
  | case9 pos c rest hcons _ _ _ hm fault hs =>
    obtain rfl := Option.some.inj (hcons.symm.trans h)
    obtain ⟨hc, rfl⟩ := of_scanString_eq_error hm hcons hs
    rw [Nesting.reachFrom_mark hm (Nesting.isClear_iff.1 hn).2, hc]
    rfl
  | case10 pos c rest hcons _ _ _ hm next hs ih =>
    obtain rfl := Option.some.inj (hcons.symm.trans h)
    obtain ⟨body, after, hc, rfl, hnext⟩ := of_scanString_eq_ok hm hcons hs
    rw [ih hn hnext, Nesting.reachFrom_mark hm (Nesting.isClear_iff.1 hn).2, hc]
    simp only
    rw [map_stop fun cs => by rw [width_append, Nat.add_assoc]]
  | case11 pos c rest hcons hcomma hopen hclose hm ih =>
    obtain rfl := Option.some.inj (hcons.symm.trans h)
    have hstep := Nesting.step_plain (Nesting.isClear_iff.1 hn).2 (by simpa using hm) hopen
      hclose pos
    rw [ih hn (tail?_next h), Nesting.reachFrom, if_neg (by simp [hcomma]),
      if_neg (by simp [hclose]), hstep, map_stop fun cs => by rw [width_cons, Nat.add_assoc]]

/-! ### Lists -/

/-- The place of the parenthesis of the list that begins at `start`, if one does. -/
def arrayOpen (src : List Char) (start : Nat) : Option (Option Nat) := do
  let cs ← tail? src start
  let after := (cs.drop Written.listWord.length).dropWhile isBlank
  if Written.listWord.isPrefixOf cs && after.head? = some '(' then
    (sub? (width src) (width after)).map some
  else some none

theorem arrayOpen_eq (h : tail? src start = some cs) : arrayOpen src start =
    some ((Written.listOpening? cs).map fun r => Written.listOpened start r.1) := by
  have hwidth := width_of_tail? h
  rw [arrayOpen, h, Option.bind_eq_bind, Option.bind_some]
  cases hl : Written.listOpening? cs with
  | some r =>
    obtain ⟨gap, inner⟩ := r
    have hcs := Written.eq_of_listOpening? hl
    have hgap := Written.blanks_of_listOpening? hl
    have hstop : Stops isBlank ('(' :: inner) := stops_cons.2 (by decide)
    have hword : Written.listWord.isPrefixOf cs = true := by
      rw [hcs, List.append_assoc]
      exact List.isPrefixOf_iff_prefix.2 (List.prefix_append ..)
    have hafter : (cs.drop Written.listWord.length).dropWhile isBlank = '(' :: inner := by
      rw [hcs, List.append_assoc, List.drop_left, dropWhile_append_stops hgap hstop]
    have hopened : width src = Written.listOpened start gap + width ('(' :: inner) := by
      rw [hwidth, hcs, width_append, width_append, Written.listOpened]
      omega
    simp only [hword, hafter, hopened, sub?_add]
    rfl
  | none =>
    rw [if_neg]
    · rfl
    · intro hboth
      obtain ⟨hword, hhead⟩ := Bool.and_eq_true_iff.1 hboth
      obtain ⟨inner, hinner⟩ := List.head?_eq_some_iff.1 (of_decide_eq_true hhead)
      simp [Written.listOpening?, hword, hinner] at hl

end InBytes
end TagScope
