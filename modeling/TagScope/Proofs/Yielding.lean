/-
# One argument at a time

A splitter gives the arguments of a list one by one. It keeps the place up to which it has
read, and goes on from there when it is asked for the next argument; after a fault it gives
nothing more. It never cuts the text: an argument is given as the bytes that it covers.

A splitter that stands where the text can be read gives an answer, and is left at such a
place again (`Splitter.Legible.next`). So every state that is reached gives one
(`Splitter.Reached.advances`): either it has come to its end, or it gives an argument that
begins where it stands or behind that, has at least one byte and ends where it is left or
before, so that arguments are given in order and do not overlap; what is given are the
tokens that `Token.scan` finds in what is left (`Splitter.Gives.run_eq`).

Key definitions: `scanArg`, `nextArg`, `Splitter.next`, `Splitter.run`, `Splitter.traverse`,
`Splitter.Legible`, `split`.
Key theorems: `scanArg_eq`, `nextArg_eq`, `Splitter.next_cases`, `Splitter.Legible.next`,
`Splitter.Reached.advances`, `Splitter.Gives.run_eq`, `Splitter.Gives.traverse_eq`, `split_eq`.
-/
import TagScope.Proofs.Advancing
import TagScope.Proofs.Bytewise
import TagScope.Proofs.InPlace

namespace TagScope
namespace InBytes

/-! ### One argument -/

/-- An argument that has been found: its kind, and the bytes that it covers. -/
structure RawArg where
  kind : ArgumentKind
  span : Span
  deriving DecidableEq, Repr

/-- The first place from `pos` on where a character of another class stands. -/
def skipWhile (p : Char → Bool) (src : List Char) (pos : Nat) : Option Nat :=
  match _h : tail? src pos with
  | none => none
  | some [] => some pos
  | some (c :: _) => if p c then skipWhile p src (pos + c.utf8Size) else some pos
termination_by width src - pos
decreasing_by
  have hlt := lt_of_tail? _h
  have hsize := c.utf8Size_pos
  omega

/-- The argument that begins with `c` at `start`, and where its scan ends: for a reference
behind the white space that follows it. -/
def scanArg (src : List Char) (start : Nat) (c : Char) : Guarded (RawArg × Nat) := do
  if Quoted.isMark c then
    let stop ← scanString src start
    pure (⟨.text, ⟨start, stop⟩⟩, stop)
  else
    let cs ← tail? src start
    if startsNumber cs then
      let (stop, kind) := scanNumber src start
      pure (⟨kind, ⟨start, stop⟩⟩, stop)
    else
      match ← arrayOpen src start with
      | some opened =>
        let closed ← scanGroup src opened
        pure (⟨.list, ⟨start, closed + 1⟩⟩, closed + 1)
      | none =>
        if Written.startsReference c then
          let stop ← scanReference src start
          let text ← slice? src start stop
          pure (⟨.reference, ⟨start, start + width (Written.trimEnd text)⟩⟩, stop)
        else if c = ')' then throw ⟨.unmatchedParen, ⟨start, start + 1⟩⟩
        else throw ⟨.unexpectedChar c, .char start c⟩

/-- The next argument from `pos` on if there is one, and the place up to which the text has
been read then. -/
def nextArg (src : List Char) (pos : Nat) : Option (Except Fault (Option RawArg) × Nat) := do
  let start ← skipWhile Token.isSeparator src pos
  match ← tail? src start with
  | [] => some (.ok none, start)
  | c :: _ =>
    match ← (scanArg src start c).run with
    | .error fault => some (.error fault, start)
    | .ok (arg, stop) =>
      if arg.kind = .reference then some (.ok (some arg), stop)
      else
        let next ← skipWhile isBlank src stop
        match ← tail? src next with
        | [] => some (.ok (some arg), next)
        | d :: _ =>
          if d = ',' then some (.ok (some arg), next)
          else some (.error ⟨.expectedSeparator, .char next d⟩, next)

variable {src cs rest : List Char} {pos start : Nat} {c : Char}

theorem skipWhile_eq (p : Char → Bool) : ∀ {cs : List Char} {pos : Nat},
    tail? src pos = some cs → skipWhile p src pos = some (pos + width (cs.takeWhile p)) := by
  intro cs pos h
  fun_induction skipWhile p src pos generalizing cs with
  | case1 pos hnone => exact absurd (hnone.symm.trans h) (by simp)
  | case2 pos hnil =>
    obtain rfl := Option.some.inj (hnil.symm.trans h)
    rfl
  | case3 pos c rest hcons hp ih =>
    obtain rfl := Option.some.inj (hcons.symm.trans h)
    rw [ih (tail?_next h), List.takeWhile_cons, if_pos hp, width_cons, Nat.add_assoc]
  | case4 pos c rest hcons hp =>
    obtain rfl := Option.some.inj (hcons.symm.trans h)
    rw [List.takeWhile_cons, if_neg hp]
    rfl

theorem skipWhile_eq_none (p : Char → Bool) (h : tail? src pos = none) :
    skipWhile p src pos = none := by
  rw [skipWhile]
  split
  · rfl
  · rename_i hnil
    exact absurd (hnil.symm.trans h) (by simp)
  · rename_i c rest hcons
    exact absurd (hcons.symm.trans h) (by simp)

theorem tail?_dropWhile (p : Char → Bool) (h : tail? src pos = some cs) :
    tail? src (pos + width (cs.takeWhile p)) = some (cs.dropWhile p) :=
  tail?_add (by rw [h, List.takeWhile_append_dropWhile])

/-- The white space that the scan of an argument goes over behind it. -/
def trailing (w : Written) (after : List Char) : Nat :=
  if w.kind = .reference then width (after.takeWhile isBlank) else 0

/-- **An argument is found** where `Written.scan` finds it, with its kind and its bytes. -/
theorem scanArg_eq (h : tail? src start = some (c :: rest)) : scanArg src start c =
    answer ((Written.scan start c rest).map fun r =>
      (⟨r.1.kind, .covering start r.1.text⟩, start + width r.1.text + trailing r.1 r.2)) := by
  unfold scanArg Written.scan
  by_cases hm : Quoted.isMark c = true
  · rw [if_pos hm, if_pos hm, scanString_eq hm h]
    cases Quoted.close c rest with
    | none => rfl
    | some r => rfl
  · rw [if_neg hm, if_neg hm, h, lift_some_bind, startsNumber_eq]
    cases hn : Numeral.scan? (c :: rest) with
    | some r =>
      obtain ⟨n, after⟩ := r
      have hkind : (Written.number n).kind ≠ .reference := by
        rw [Written.kind]
        split <;> simp
      simp only [Option.isSome_some, if_true, scanNumber_eq h hn, Except.map, trailing,
        if_neg hkind]
      rfl
    | none =>
      rw [arrayOpen_eq h, lift_some_bind]
      simp only [Option.isSome_none, Bool.false_eq_true, if_false]
      cases hl : Written.listOpening? (c :: rest) with
      | some r =>
        obtain ⟨gap, inner⟩ := r
        have hopened : tail? src (Written.listOpened start gap) = some ('(' :: inner) := by
          rw [Written.listOpened, Nat.add_assoc, ← width_append]
          exact tail?_add (by rw [h, Written.eq_of_listOpening? hl])
        simp only [Option.map_some, scanGroup_eq hopened, Written.scanList]
        cases Nesting.close (Written.listOpened start gap) inner with
        | error fault => rfl
        | ok r =>
          obtain ⟨inside, after⟩ := r
          have hstop : Written.listOpened start gap + 1 + width inside + 1 =
              start + width (Written.text (.list gap inside)) := by
            rw [Written.text, Written.listOpened, List.append_assoc, width_append, width_append,
              width_group]
            omega
          simp only [Except.map, answer_ok_bind, hstop]
          rfl
      | none =>
        simp only [Option.map_none]
        by_cases href : Written.startsReference c = true
        · simp only [if_pos href, scanReference_eq (n := {}) rfl h, Written.scanReference]
          rw [← Nesting.reach]
          cases hreach : Nesting.reach start (c :: rest) with
          | error fault => rfl
          | ok r =>
            obtain ⟨before, after⟩ := r
            have hslice : slice? src start (start + width before) = some before :=
              slice?_of_tail? (by rw [h, Nesting.append_of_reach hreach])
            have hstops := Written.stops_of_cut (Nesting.skips_of_reach hreach).2
            have hgap := takeWhile_append_stops (Written.blanks_blankEnd before) hstops
            have hbefore := congrArg width (Written.trimEnd_append_blankEnd before)
            rw [width_append] at hbefore
            simp only [Except.map, answer_ok_bind, hslice, lift_some_bind, trailing, Written.kind,
              if_true, Written.text, hgap, Nat.add_assoc, hbefore]
            rfl
        · simp only [if_neg href]
          by_cases hparen : c = ')'
          · subst hparen
            rfl
          · rw [if_neg hparen, if_neg hparen]
            rfl

/-- The token as it is given: its kind, and the bytes that it covers. -/
def rawArg (t : Token) : RawArg := ⟨t.written.kind, t.span⟩

theorem ends_of_reference {w : Written} {after : List Char}
    (hw : Written.scan start c rest = .ok (w, after)) (hkind : w.kind = .reference) :
    Written.Ends after := by
  have htext := Written.eq_text_of_scan hw
  rcases Written.scan_cases hw with ⟨body, rfl, -, -⟩ | ⟨n, rfl, -⟩ |
    ⟨gap, inner, inside, rfl, -, -⟩ | ⟨before, after', rfl, -, -, -, hreach⟩
  · cases hkind
  · rw [Written.kind] at hkind
    split at hkind <;> cases hkind
  · cases hkind
  · have hcut := (Nesting.skips_of_reach hreach).2
    intro d hd
    rw [Written.eq_blankEnd_append hreach htext, dropWhile_append_stops
      (Written.blanks_blankEnd before) (Written.stops_of_cut hcut)] at hd
    rcases hcut with rfl | ⟨more, rfl⟩
    · simp at hd
    · exact (Option.some.inj hd).symm

/-- **The next argument** is the first one that `Token.scan` finds in what is left. -/
theorem nextArg_eq (h : tail? src pos = some cs) : nextArg src pos =
    let start := pos + width (cs.takeWhile Token.isSeparator)
    match cs.dropWhile Token.isSeparator with
    | [] => some (.ok none, start)
    | c :: rest =>
      match Written.scan start c rest with
      | .error fault => some (.error fault, start)
      | .ok (w, after) =>
        let stop := start + width w.text + width (after.takeWhile isBlank)
        match after.dropWhile isBlank with
        | [] => some (.ok (some (rawArg ⟨start, w⟩)), stop)
        | d :: _ =>
          if d = ',' then some (.ok (some (rawArg ⟨start, w⟩)), stop)
          else some (.error ⟨.expectedSeparator, .char stop d⟩, stop) := by
  have hstart := tail?_dropWhile Token.isSeparator h
  simp only [nextArg, skipWhile_eq _ h, hstart, Option.bind_eq_bind, Option.bind_some]
  cases hcs : cs.dropWhile Token.isSeparator with
  | nil => rfl
  | cons c rest =>
    rw [hcs] at hstart
    simp only [scanArg_eq hstart]
    cases hw : Written.scan (pos + width (cs.takeWhile Token.isSeparator)) c rest with
    | error fault => rfl
    | ok r =>
      obtain ⟨w, after⟩ := r
      have hbehind : tail? src (pos + width (cs.takeWhile Token.isSeparator) + width w.text) =
          some after := tail?_add (by rw [hstart, Written.eq_text_of_scan hw])
      show (if w.kind = .reference then _ else _) = _
      dsimp only
      by_cases hkind : w.kind = .reference
      · rw [if_pos hkind, trailing, if_pos hkind]
        cases hd : after.dropWhile isBlank with
        | nil => rfl
        | cons d more =>
          have hcomma : d = ',' := ends_of_reference hw hkind d (by rw [hd]; rfl)
          exact (if_pos hcomma).symm
      · rw [if_neg hkind, trailing, if_neg hkind, Nat.add_zero]
        simp only [skipWhile_eq _ hbehind, tail?_dropWhile _ hbehind, Option.bind_some]
        cases after.dropWhile isBlank <;> rfl

/-! ### The splitter -/

/-- A splitter: the text, the place up to which it has been read, and whether there is
nothing more to give. -/
structure Splitter where
  input : List Char
  pos : Nat := 0
  done : Bool := false

namespace Splitter

/-- What is given next, if anything is, and what the splitter is then. -/
def next (s : Splitter) : Option (Option (Except Fault RawArg) × Splitter) :=
  if s.done then some (none, s)
  else (nextArg s.input s.pos).map fun
    | (.ok (some arg), pos) => (some (.ok arg), { s with pos })
    | (.ok none, pos) => (none, { s with pos, done := true })
    | (.error fault, pos) => (some (.error fault), { s with pos, done := true })

theorem next_of_done {s : Splitter} (h : s.done = true) : s.next = some (none, s) := if_pos h

/-- **What a splitter may do** where its text can be read: come to an end, give a fault and
nothing after it, or give the first token of what is left, and stand behind it. -/
theorem next_cases (h : tail? src pos = some cs) :
    (Token.scan pos cs = .done ∧ ∃ stop, next ⟨src, pos, false⟩ = some (none, ⟨src, stop, true⟩)) ∨
    (∃ fault stop, Token.scan pos cs = .failed fault ∧
      next ⟨src, pos, false⟩ = some (some (.error fault), ⟨src, stop, true⟩)) ∨
    ∃ t stop more, Token.scan pos cs = .cons t (Token.scan stop more) ∧
      next ⟨src, pos, false⟩ = some (some (.ok (rawArg t)), ⟨src, stop, false⟩) ∧
      tail? src stop = some more ∧
      pos ≤ t.span.start ∧ t.span.start < t.span.stop ∧ t.span.stop ≤ stop := by
  have hnext : next ⟨src, pos, false⟩ = (nextArg src pos).map fun
    | (.ok (some arg), stop) => (some (.ok arg), ⟨src, stop, false⟩)
    | (.ok none, stop) => (none, ⟨src, stop, true⟩)
    | (.error fault, stop) => (some (.error fault), ⟨src, stop, true⟩) := rfl
  rw [nextArg_eq h] at hnext
  have hstart := tail?_dropWhile Token.isSeparator h
  cases hcs : cs.dropWhile Token.isSeparator with
  | nil =>
    rw [hcs] at hnext
    exact Or.inl ⟨Token.scan_nil hcs, _, hnext⟩
  | cons c rest =>
    rw [hcs] at hnext hstart
    cases hw : Written.scan (pos + width (cs.takeWhile Token.isSeparator)) c rest with
    | error fault =>
      simp only [hw] at hnext
      exact Or.inr (Or.inl ⟨fault, _, Token.scan_failed hcs hw, hnext⟩)
    | ok r =>
      obtain ⟨w, after⟩ := r
      simp only [hw] at hnext
      have hbehind : tail? src (pos + width (cs.takeWhile Token.isSeparator) + width w.text) =
          some after := tail?_add (by rw [hstart, Written.eq_text_of_scan hw])
      have hgap := tail?_dropWhile isBlank hbehind
      have hsize := width_pos (Written.piece_of_scan hw).1.ne_nil
      -- the argument is behind what was skipped, and not empty
      have hspan : pos ≤ pos + width (cs.takeWhile Token.isSeparator) ∧
          pos + width (cs.takeWhile Token.isSeparator) <
            pos + width (cs.takeWhile Token.isSeparator) + width w.text ∧
          pos + width (cs.takeWhile Token.isSeparator) + width w.text ≤
            pos + width (cs.takeWhile Token.isSeparator) + width w.text +
              width (after.takeWhile isBlank) := by omega
      cases hd : after.dropWhile isBlank with
      | nil =>
        rw [hd] at hnext hgap
        refine Or.inr (Or.inr ⟨_, _, [], ?_, hnext, hgap, hspan⟩)
        rw [Token.scan_last hcs hw hd, Token.scan_nil rfl]
      | cons d more =>
        rw [hd] at hnext hgap
        by_cases hcomma : d = ','
        · subst hcomma
          refine Or.inr (Or.inr ⟨_, _, ',' :: more, ?_, hnext, hgap, hspan⟩)
          have hseparator : Separators [','] := by simp [Separators, Token.isSeparator]
          rw [Token.scan_comma hcs hw hd]
          exact congrArg _ (Token.scan_append_separators hseparator _ more).symm
        · simp only [if_neg hcomma] at hnext
          exact Or.inr (Or.inl ⟨_, _, Token.scan_unseparated hcs hw hd hcomma, hnext⟩)

/-- The text that a splitter has not read yet, and one more as long as it is not done. -/
def left (s : Splitter) : Nat := if s.done then 0 else width s.input + 1 - s.pos

/-- A splitter that gives something comes closer to its end. -/
theorem left_of_next {s s' : Splitter} {item : Except Fault RawArg}
    (h : s.next = some (some item, s')) : s'.left < s.left := by
  obtain ⟨src, pos, done⟩ := s
  cases done with
  | true => cases h
  | false =>
    cases ht : tail? src pos with
    | none =>
      have hnone : next ⟨src, pos, false⟩ = none := by
        simp [next, nextArg, skipWhile_eq_none _ ht]
      rw [hnone] at h
      cases h
    | some cs =>
      have hwidth := width_of_tail? ht
      have hopen : left ⟨src, pos, false⟩ = width src + 1 - pos := rfl
      rcases next_cases ht with ⟨-, stop, hnext⟩ | ⟨fault, stop, -, hnext⟩ |
        ⟨t, stop, more, -, hnext, hmore, hstart, hsize, hstop⟩
      · rw [hnext] at h
        cases h
      · obtain ⟨-, rfl⟩ := Prod.mk.inj (Option.some.inj (hnext.symm.trans h))
        show 0 < _
        omega
      · obtain ⟨-, rfl⟩ := Prod.mk.inj (Option.some.inj (hnext.symm.trans h))
        show width src + 1 - stop < _
        omega

/-- Everything that a splitter gives until it has come to its end. -/
def run (s : Splitter) : Option (List (Except Fault RawArg)) :=
  match _h : s.next with
  | none => none
  | some (none, _) => some []
  | some (some item, s') => (run s').map (item :: ·)
termination_by s.left
decreasing_by exact left_of_next _h

/-- The arguments that a splitter gives, each read by `f` before the next one is asked for,
up to the first fault. A fault of the splitter itself is told as `located` says. -/
def traverse {α : Type} (located : Fault → Fault) (f : RawArg → Guarded α) (s : Splitter) :
    Guarded (List α) :=
  match _h : s.next with
  | none => none
  | some (none, _) => pure []
  | some (some (.error fault), _) => throw (located fault)
  | some (some (.ok arg), s') => do
    let a ← f arg
    let rest ← traverse located f s'
    pure (a :: rest)
termination_by s.left
decreasing_by exact left_of_next _h

theorem run_end {s s' : Splitter} (h : s.next = some (none, s')) : s.run = some [] := by
  rw [run]
  split <;> simp_all

theorem run_item {s s' : Splitter} {item : Except Fault RawArg}
    (h : s.next = some (some item, s')) : s.run = s'.run.map (item :: ·) := by
  rw [run]
  split <;> simp_all

/-- What a splitter that has read up to a place gives from there on, step by step. Each
argument begins where the splitter stands or behind that, has at least one byte, and ends
where the splitter stands then or before. -/
inductive Gives (src : List Char) : Nat → Scan Token → Prop where
  | done {pos stop : Nat} :
    next ⟨src, pos, false⟩ = some (none, ⟨src, stop, true⟩) → Gives src pos .done
  | failed {pos stop : Nat} {fault : Fault} :
    next ⟨src, pos, false⟩ = some (some (.error fault), ⟨src, stop, true⟩) →
    Gives src pos (.failed fault)
  | cons {pos stop : Nat} {t : Token} {scan : Scan Token} :
    next ⟨src, pos, false⟩ = some (some (.ok (rawArg t)), ⟨src, stop, false⟩) →
    pos ≤ t.span.start → t.span.start < t.span.stop → t.span.stop ≤ stop →
    Gives src stop scan → Gives src pos (.cons t scan)

/-- **A splitter gives the tokens** of what is left, in order, and then their fault if there
is one. -/
theorem gives_scan {pos : Nat} {cs : List Char} (h : tail? src pos = some cs) :
    Gives src pos (Token.scan pos cs) := by
  generalize hscan : Token.scan pos cs = scan
  obtain ⟨items, fault⟩ := scan
  induction items generalizing pos cs with
  | nil =>
    rcases next_cases h with ⟨hdone, stop, hnext⟩ | ⟨fault', stop, hfailed, hnext⟩ |
      ⟨t, stop, more, hcons, -⟩
    · rw [← hscan, hdone]
      exact .done hnext
    · rw [← hscan, hfailed]
      exact .failed hnext
    · cases hcons.symm.trans hscan
  | cons t items ih =>
    rcases next_cases h with ⟨hdone, -⟩ | ⟨fault', stop, hfailed, -⟩ |
      ⟨t', stop, more, hcons, hnext, hmore, hstart, hsize, hstop⟩
    · cases hdone.symm.trans hscan
    · cases hfailed.symm.trans hscan
    · obtain ⟨hitems, hfault⟩ := Scan.mk.inj (hcons.symm.trans hscan)
      obtain ⟨rfl, rfl⟩ := List.cons.inj hitems
      subst hfault
      exact .cons hnext hstart hsize hstop (ih hmore rfl)

namespace Gives

variable {scan : Scan Token}

/-- **Everything is given** until the end. -/
theorem run_eq (h : Gives src pos scan) : run ⟨src, pos, false⟩ =
    some (scan.items.map (fun t => .ok (rawArg t)) ++ scan.fault.toList.map .error) := by
  induction h with
  | done hnext => exact run_end hnext
  | failed hnext =>
    rw [run_item hnext, run_end (next_of_done rfl)]
    rfl
  | cons hnext _ _ _ _ ih =>
    rw [run_item hnext, ih]
    rfl

/-- **Arguments are in order**: each ends before the next one begins, and has at least one
byte. -/
theorem ordered (h : Gives src pos scan) :
    (∀ t ∈ scan.items, pos ≤ t.span.start ∧ t.span.start < t.span.stop) ∧
      scan.items.Pairwise fun t u => t.span.stop ≤ u.span.start := by
  induction h with
  | done => exact ⟨by simp [Scan.done], .nil⟩
  | failed => exact ⟨by simp [Scan.failed], .nil⟩
  | cons hnext hstart hsize hstop _ ih =>
    obtain ⟨hbehind, hordered⟩ := ih
    refine ⟨List.forall_mem_cons.2 ⟨⟨hstart, hsize⟩, fun u hu => ?_⟩,
      .cons (fun u hu => ?_) hordered⟩
    · have hu' := hbehind u hu
      exact ⟨by omega, hu'.2⟩
    · have hu' := hbehind u hu
      omega

end Gives

theorem traverse_end {α : Type} {located : Fault → Fault} {f : RawArg → Guarded α}
    {s s' : Splitter} (h : s.next = some (none, s')) : s.traverse located f = answer (.ok []) := by
  rw [traverse]
  split
  · simp_all
  · rfl
  · simp_all
  · simp_all

theorem traverse_error {α : Type} {located : Fault → Fault} {f : RawArg → Guarded α}
    {s s' : Splitter} {fault : Fault} (h : s.next = some (some (.error fault), s')) :
    s.traverse located f = answer (.error (located fault)) := by
  rw [traverse]
  split
  · simp_all
  · simp_all
  · simp_all
    rfl
  · simp_all

theorem traverse_ok {α : Type} {located : Fault → Fault} {f : RawArg → Guarded α}
    {s s' : Splitter} {arg : RawArg} (h : s.next = some (some (.ok arg), s')) :
    s.traverse located f = f arg >>= fun a => s'.traverse located f >>= fun rest =>
      pure (a :: rest) := by
  rw [traverse]
  split <;> simp_all

/-- **Arguments that can be read are read** one after the other. -/
theorem Gives.traverse_eq {α : Type} {located : Fault → Fault} {f : RawArg → Guarded α}
    {g : Token → Except Fault α} {scan : Scan Token} (h : Gives src pos scan)
    (hread : ∀ t ∈ scan.items, f (rawArg t) = answer (g t)) :
    traverse located f ⟨src, pos, false⟩ =
      answer (Scan.traverse g ⟨scan.items, scan.fault.map located⟩) := by
  induction h with
  | done hnext => exact traverse_end hnext
  | failed hnext => exact traverse_error hnext
  | @cons pos stop t scan hnext _ _ _ _ ih =>
    obtain ⟨hfirst, hrest⟩ := List.forall_mem_cons.1 hread
    have hsplit : Scan.traverse g ⟨(scan.cons t).items, (scan.cons t).fault.map located⟩ =
        (g t).bind fun a => (Scan.traverse g ⟨scan.items, scan.fault.map located⟩).map (a :: ·) :=
      Scan.traverse_cons t ⟨scan.items, scan.fault.map located⟩
    rw [traverse_ok hnext, hfirst, ih hrest, hsplit]
    cases g t with
    | error fault => rfl
    | ok a => cases Scan.traverse g ⟨scan.items, scan.fault.map located⟩ <;> rfl

/-- What the arguments are read by matters only for those that are given. -/
theorem Gives.traverse_congr {α : Type} {located : Fault → Fault} {f g : RawArg → Guarded α}
    {scan : Scan Token} (h : Gives src pos scan)
    (hread : ∀ t ∈ scan.items, f (rawArg t) = g (rawArg t)) :
    traverse located f ⟨src, pos, false⟩ = traverse located g ⟨src, pos, false⟩ := by
  induction h with
  | done hnext => rw [traverse_end hnext, traverse_end hnext]
  | failed hnext => rw [traverse_error hnext, traverse_error hnext]
  | cons hnext _ _ _ _ ih =>
    obtain ⟨hfirst, hrest⟩ := List.forall_mem_cons.1 hread
    rw [traverse_ok hnext, traverse_ok hnext, hfirst, ih hrest]

/-! ### Every state -/

/-- The states that a splitter of `src` comes to. -/
inductive Reached (src : List Char) : Splitter → Prop where
  | start : Reached src ⟨src, 0, false⟩
  | next {s s' : Splitter} {item : Option (Except Fault RawArg)} :
    Reached src s → s.next = some (item, s') → Reached src s'

/-- What a step does: an argument that is given lies between the places where the splitter
has stood and where it stands now, and has at least one byte; with a fault, or when it gives
nothing, the splitter is done; and one that is done gives nothing. -/
def Advances (s s' : Splitter) : Option (Except Fault RawArg) → Prop
  | none => s'.done = true
  | some (.error _) => s.done = false ∧ s'.done = true
  | some (.ok arg) => s.done = false ∧ s'.done = false ∧ s.pos ≤ arg.span.start ∧
    arg.span.start < arg.span.stop ∧ arg.span.stop ≤ s'.pos ∧ s'.pos ≤ width s.input

/-- A splitter of `src` that is done, or stands where the text can be read. -/
def Legible (src : List Char) (s : Splitter) : Prop :=
  s.input = src ∧ (s.done = true ∨ ∃ cs, tail? src s.pos = some cs)

/-- **A step from such a state** gives an argument or a fault, or comes to the end, and leads
to such a state. -/
theorem Legible.next {s : Splitter} (h : s.Legible src) :
    ∃ item s', s.next = some (item, s') ∧ s.Advances s' item ∧ s'.Legible src := by
  obtain ⟨src', pos, done⟩ := s
  obtain ⟨rfl, hopen⟩ := h
  cases done with
  | true => exact ⟨none, _, next_of_done rfl, rfl, rfl, Or.inl rfl⟩
  | false =>
    obtain ⟨cs, hcs⟩ := hopen.resolve_left (by simp)
    rcases next_cases hcs with ⟨-, stop, hnext⟩ | ⟨fault, stop, -, hnext⟩ |
      ⟨t, stop, more, -, hnext, hmore, hstart, hsize, hstop⟩
    · exact ⟨_, _, hnext, rfl, rfl, Or.inl rfl⟩
    · exact ⟨_, _, hnext, ⟨rfl, rfl⟩, rfl, Or.inl rfl⟩
    · have hend : stop ≤ width src' := by
        rw [width_of_tail? hmore]
        omega
      exact ⟨_, _, hnext, ⟨rfl, rfl, hstart, hsize, hstop, hend⟩, rfl, Or.inr ⟨more, hmore⟩⟩

theorem Reached.legible {s : Splitter} (h : Reached src s) : s.Legible src := by
  induction h with
  | start => exact ⟨rfl, Or.inr ⟨src, by rw [tail?]⟩⟩
  | @next s s' item _ hnext ih =>
    obtain ⟨item', s'', hnext', -, hlegible⟩ := ih.next
    obtain ⟨-, rfl⟩ := Prod.mk.inj (Option.some.inj (hnext'.symm.trans hnext))
    exact hlegible

/-- **Every state that is reached goes on**: it gives an argument or a fault, or comes to
its end. -/
theorem Reached.advances {s : Splitter} (h : Reached src s) :
    ∃ item s', s.next = some (item, s') ∧ s.Advances s' item := by
  obtain ⟨item, s', hnext, hadvances, -⟩ := h.legible.next
  exact ⟨item, s', hnext, hadvances⟩

end Splitter

/-! ### Splitting -/

/-- The text that an argument covers, cut out of the list. -/
def cut (src : List Char) (arg : RawArg) : Guarded String := do
  let text ← slice? src arg.span.start arg.span.stop
  pure (String.ofList text)

/-- The arguments of a list as they are written, each cut out of it. -/
def split (input : String) : Option (Except SyntaxError (List String)) :=
  (Splitter.traverse id (cut input.toList) ⟨input.toList, 0, false⟩).run.map
    (Except.mapError (Fault.within input))

theorem slice?_of_scan (h : tail? src pos = some cs) : ∀ t ∈ (Token.scan pos cs).items,
    slice? src t.span.start t.span.stop = some t.text := by
  intro t ht
  obtain ⟨⟨start, hstart, before, after, rfl, rfl, -⟩, -⟩ := Token.stands_of_scan _ _ t ht
  rw [List.append_assoc] at h
  rw [Token.span, Span.covering, hstart]
  exact slice?_of_tail? (tail?_add h)

theorem cut_eq (h : tail? src pos = some cs) : ∀ t ∈ (Token.scan pos cs).items,
    cut src (rawArg t) = answer (.ok (String.ofList t.text)) := by
  intro t ht
  show (liftM (slice? src t.span.start t.span.stop) >>= _ : Guarded String) = _
  rw [slice?_of_scan h t ht]
  rfl

/-- **Splitting by bytes** gives an answer for every text, and it is the one that splitting
by characters gives. -/
theorem split_eq (input : String) : split input = some (splitArguments input) := by
  have htail : tail? input.toList 0 = some input.toList := by rw [tail?]
  have htraverse : Splitter.traverse id (cut input.toList) ⟨input.toList, 0, false⟩ = _ :=
    (Splitter.gives_scan htail).traverse_eq (cut_eq htail)
  rw [split, htraverse, splitArguments, scanArguments]
  obtain ⟨items, fault⟩ := Token.scan 0 input.toList
  have hitems : items.mapM (fun t => Except.ok (ε := Fault) (String.ofList t.text)) =
      .ok (items.map fun t => String.ofList t.text) := List.mapM_pure
  simp only [Scan.traverse, hitems]
  cases fault <;> rfl

end InBytes
end TagScope
