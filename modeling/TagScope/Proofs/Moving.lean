/-
# Reading does not depend on the place

Wherever a text begins, it is read as the same thing, and what is wrong with it
is the same and stands at the same distance from its beginning. So a text that
begins `offset` bytes further on gives the same items and the same fault, moved
by so many bytes (`RawSegment.scan_add`, `Token.scan_add`), and is read as the
same path or fails with the moved fault (`Path.read_add`).

The readers of the argument lists inside need not be the same in both places:
they only have to agree on the lists that stand in the text (`Path.Lists`,
`Token.Lists`). That is what lets readers with different limits be compared.

Key definitions: `Scan.moved`, `Nesting.Moved`, `Path.Lists`, `Token.Lists`.
Key theorems: `RawSegment.scan_add`, `Token.scan_add`, `Path.read_add`, `Arg.read_add`,
`Arg.readList_add`.
-/
import TagScope.Proofs.Sound

namespace TagScope

/-! ### What moves -/

@[simp] theorem Span.shift_covering (offset start : Nat) (cs : List Char) :
    (Span.covering start cs).shift offset = .covering (start + offset) cs := by
  simp only [Span.covering, Span.shift, Nat.add_right_comm]

theorem mapError_shift_zero {α : Type} (x : Except Fault α) :
    x.mapError (Fault.shift 0) = x := by
  cases x <;> rfl

/-- The same segment in a text that begins further on. -/
def RawSegment.moved (offset : Nat) (s : RawSegment) : RawSegment :=
  { s with start := s.start + offset }

/-- The same argument in a text that begins further on. -/
def Token.moved (offset : Nat) (t : Token) : Token := { t with start := t.start + offset }

namespace Scan

variable {α β : Type}

/-- The same items and the same fault in a text that begins further on, where
`move` moves an item. -/
def moved (move : α → α) (offset : Nat) (s : Scan α) : Scan α :=
  ⟨s.items.map move, s.fault.map (Fault.shift offset)⟩

variable {f g : α → Except Fault β} {move : α → α} {offset : Nat}

theorem traverse_moved : ∀ {s : Scan α},
    (∀ a ∈ s.items, f (move a) = (g a).mapError (Fault.shift offset)) →
    (s.moved move offset).traverse f = (s.traverse g).mapError (Fault.shift offset)
  | ⟨[], none⟩, _ => rfl
  | ⟨[], some _⟩, _ => rfl
  | ⟨a :: items, fault⟩, h => by
    have hrest := @traverse_moved ⟨items, fault⟩ fun b hb => h b (List.mem_cons_of_mem _ hb)
    have hsplit : (Scan.mk (a :: items) fault).traverse g =
        (g a).bind fun b => (Scan.traverse g ⟨items, fault⟩).map (b :: ·) :=
      traverse_cons a ⟨items, fault⟩
    have hsplit' : ((Scan.mk (a :: items) fault).moved move offset).traverse f =
        (f (move a)).bind fun b => ((Scan.mk items fault).moved move offset |>.traverse f).map
          (b :: ·) := traverse_cons (move a) ((Scan.mk items fault).moved move offset)
    rw [hsplit, hsplit', hrest, h a List.mem_cons_self]
    cases g a with
    | error e => rfl
    | ok b => cases Scan.traverse g ⟨items, fault⟩ <;> rfl

theorem traverse_congr : ∀ {s : Scan α}, (∀ a ∈ s.items, f a = g a) →
    s.traverse f = s.traverse g
  | ⟨[], _⟩, _ => rfl
  | ⟨a :: items, fault⟩, h => by
    have hrest := @traverse_congr ⟨items, fault⟩ fun b hb => h b (List.mem_cons_of_mem _ hb)
    show (cons a ⟨items, fault⟩).traverse f = (cons a ⟨items, fault⟩).traverse g
    rw [traverse_cons, traverse_cons, hrest, h a List.mem_cons_self]

end Scan

/-! ### Groups and quoted texts -/

/-- The same quoted text in a text that begins further on. -/
def Quote.moved (offset : Nat) : Quote → Quote
  | .outside => .outside
  | .inside mark opened => .inside mark (opened + offset)
  | .escaped mark opened => .escaped mark (opened + offset)

namespace Nesting

/-- The same is open in a text that begins further on. Where no group is open,
it does not matter where the last one was. -/
structure Moved (offset : Nat) (n m : Nesting) : Prop where
  quote : m.quote = n.quote.moved offset
  depth : m.depth = n.depth
  opened : n.depth ≠ 0 → m.opened = n.opened + offset

namespace Moved

variable {offset : Nat} {n m : Nesting}

theorem isClear_eq (h : Moved offset n m) : m.isClear = n.isClear := by
  obtain ⟨quote, depth, opened⟩ := n
  rw [isClear, isClear, h.quote, h.depth]
  cases quote <;> simp [Quote.moved]

theorem step (h : Moved offset n m) (pos : Nat) (c : Char) :
    Moved offset (n.step pos c) (m.step (pos + offset) c) := by
  obtain ⟨quote, depth, opened⟩ := n
  obtain ⟨quote', depth', opened'⟩ := m
  obtain ⟨hq, hd, ho⟩ := h
  simp only at hq hd ho
  subst hq hd
  cases quote with
  | inside mark at' =>
    by_cases hm : c = mark
    · simp only [Nesting.step, Quote.moved, if_pos hm]
      exact ⟨rfl, rfl, ho⟩
    · by_cases hb : c = '\\'
      · simp only [Nesting.step, Quote.moved, if_neg hm, if_pos hb]
        exact ⟨rfl, rfl, ho⟩
      · simp only [Nesting.step, Quote.moved, if_neg hm, if_neg hb]
        exact ⟨rfl, rfl, ho⟩
  | escaped mark at' => exact ⟨rfl, rfl, ho⟩
  | outside =>
    by_cases hm : Quoted.isMark c = true
    · simp only [Nesting.step, Quote.moved, if_pos hm]
      exact ⟨rfl, rfl, ho⟩
    · by_cases hp : c = '('
      · simp only [Nesting.step, Quote.moved, if_neg hm, if_pos hp]
        refine ⟨rfl, rfl, fun _ => ?_⟩
        by_cases hzero : depth' = 0
        · simp only [if_pos hzero]
        · simp only [if_neg hzero]
          exact ho hzero
      · by_cases hc : c = ')'
        · simp only [Nesting.step, Quote.moved, if_neg hm, if_neg hp, if_pos hc]
          exact ⟨rfl, rfl, fun hne => ho fun hzero => hne (by simp [hzero])⟩
        · simp only [Nesting.step, Quote.moved, if_neg hm, if_neg hp, if_neg hc]
          exact ⟨rfl, rfl, ho⟩

/-- What is open at the end of a text is wrong with it in both places. -/
theorem fault_eq (h : Moved offset n m) (hn : ¬ n.isClear = true) (pos : Nat) :
    m.fault (pos + offset) = (n.fault pos).shift offset := by
  obtain ⟨quote, depth, opened⟩ := n
  rw [fault, fault, h.quote]
  cases quote with
  | outside =>
    have hd : depth ≠ 0 := by
      rintro rfl
      exact hn rfl
    simp only [Quote.moved, h.opened hd, Fault.shift, Span.char, Span.shift_covering]
  | inside mark at' => rfl
  | escaped mark at' => rfl

theorem closeFrom_add : ∀ {cs : List Char} {n m : Nesting} {pos : Nat}, Moved offset n m →
    ¬ n.isClear = true →
    closeFrom m (pos + offset) cs = (closeFrom n pos cs).mapError (Fault.shift offset)
  | [], n, m, pos, h, hn => by
    rw [closeFrom, closeFrom, h.fault_eq hn]
    rfl
  | c :: cs, n, m, pos, h, hn => by
    have hstep := h.step pos c
    rw [closeFrom, closeFrom]
    by_cases hclear : (n.step pos c).isClear = true
    · rw [if_pos hclear, if_pos (hstep.isClear_eq.trans hclear)]
      rfl
    · have hrest := @closeFrom_add cs _ _ (pos + c.utf8Size) hstep hclear
      rw [Nat.add_right_comm] at hrest
      rw [if_neg hclear, if_neg (by rw [hstep.isClear_eq]; exact hclear), hrest]
      cases closeFrom (n.step pos c) (pos + c.utf8Size) cs <;> rfl

theorem reachFrom_add : ∀ {cs : List Char} {n m : Nesting} {pos : Nat}, Moved offset n m →
    reachFrom m (pos + offset) cs = (reachFrom n pos cs).mapError (Fault.shift offset)
  | [], n, m, pos, h => by
    rw [reachFrom, reachFrom, h.isClear_eq]
    by_cases hn : n.isClear = true
    · rw [if_pos hn, if_pos hn]
      rfl
    · rw [if_neg hn, if_neg hn, h.fault_eq hn]
      rfl
  | c :: cs, n, m, pos, h => by
    have hrest := @reachFrom_add cs _ _ (pos + c.utf8Size) (h.step pos c)
    rw [Nat.add_right_comm] at hrest
    rw [reachFrom, reachFrom, h.isClear_eq]
    by_cases hcomma : (n.isClear && c = ',') = true
    · rw [if_pos hcomma, if_pos hcomma]
      rfl
    · rw [if_neg hcomma, if_neg hcomma]
      by_cases hparen : (n.isClear && c = ')') = true
      · rw [if_pos hparen, if_pos hparen]
        simp only [Except.mapError, Fault.shift, Span.char, Span.shift_covering]
      · rw [if_neg hparen, if_neg hparen, hrest]
        cases reachFrom (n.step pos c) (pos + c.utf8Size) cs <;> rfl

end Moved

theorem close_add (offset opened : Nat) (cs : List Char) :
    close (opened + offset) cs = (close opened cs).mapError (Fault.shift offset) := by
  have hmoved : Moved offset { depth := 1, opened } { depth := 1, opened := opened + offset } :=
    ⟨rfl, rfl, fun _ => rfl⟩
  have hclose := @Moved.closeFrom_add offset cs _ _ (opened + 1) hmoved (by simp [isClear])
  rwa [Nat.add_right_comm] at hclose

theorem reach_add (offset pos : Nat) (cs : List Char) :
    reach (pos + offset) cs = (reach pos cs).mapError (Fault.shift offset) := by
  have hmoved : Moved offset {} {} := ⟨rfl, rfl, fun h => absurd rfl h⟩
  exact hmoved.reachFrom_add

end Nesting

/-! ### Segments -/

namespace RawSegment

theorem misplaced_add (offset pos : Nat) (cs : List Char) :
    misplaced (pos + offset) cs = (misplaced pos cs).shift offset := by
  have hempty : Span.empty (pos + offset) = (Span.empty pos).shift offset := rfl
  cases cs with
  | nil => rw [misplaced, misplaced, hempty]; rfl
  | cons c rest =>
    rw [misplaced, misplaced]
    split
    · rw [hempty]; rfl
    · split
      · simp only [Fault.shift, Span.char, Span.shift_covering]
      · split <;> simp only [Fault.shift, Span.char, Span.shift_covering]

theorem scanOne_add (offset pos : Nat) (cs : List Char) :
    scanOne (pos + offset) cs =
      ((scanOne pos cs).map (Prod.map (moved offset) id)).mapError (Fault.shift offset) := by
  unfold scanOne
  by_cases hname : (cs.takeWhile isNameChar).isEmpty = true
  · simp only [if_pos hname, misplaced_add]
    rfl
  · simp only [if_neg hname]
    split
    · rename_i inner _
      rw [Nat.add_right_comm, Nesting.close_add]
      cases Nesting.close (pos + width (cs.takeWhile isNameChar)) inner <;> rfl
    · rfl

/-- **Segments move along** with their text. -/
theorem scan_add (offset pos : Nat) (cs : List Char) :
    scan (pos + offset) cs = (scan pos cs).moved (moved offset) offset := by
  fun_induction scan pos cs with
  | case1 pos cs fault hone =>
    have hmoved : scanOne (pos + offset) cs = .error (fault.shift offset) := by
      rw [scanOne_add, hone]
      rfl
    exact scan_failed hmoved
  | case2 pos cs s hone =>
    have hmoved : scanOne (pos + offset) cs = .ok (s.moved offset, []) := by
      rw [scanOne_add, hone]
      rfl
    exact scan_last hmoved rfl
  | case3 pos cs s c rest hone hblank =>
    have hmoved : scanOne (pos + offset) cs = .ok (s.moved offset, c :: rest) := by
      rw [scanOne_add, hone]
      rfl
    exact scan_last hmoved hblank
  | case4 pos cs s stop rest hone hblank _ =>
    rename_i ih
    have hmoved : scanOne (pos + offset) cs = .ok (s.moved offset, '.' :: rest) := by
      rw [scanOne_add, hone]
      rfl
    have hnext : pos + offset + width (s.moved offset).text + 1 = stop + 1 + offset := by
      show pos + offset + width s.text + 1 = pos + width s.text + 1 + offset
      omega
    rw [scan_dot hmoved, hnext, ih]
    rfl
  | case5 pos cs s stop c rest hone hblank hdot =>
    have hmoved : scanOne (pos + offset) cs = .ok (s.moved offset, c :: rest) := by
      rw [scanOne_add, hone]
      rfl
    have hnext : pos + offset + width (s.moved offset).text = stop + offset := by
      show pos + offset + width s.text = pos + width s.text + offset
      omega
    rw [scan_misplaced hmoved hblank hdot, hnext, misplaced_add]
    rfl

theorem opened_moved (offset : Nat) (s : RawSegment) :
    (s.moved offset).opened = s.opened + offset := Nat.add_right_comm ..

end RawSegment

/-! ### Arguments -/

theorem Written.scan_add (offset pos : Nat) (c : Char) (rest : List Char) :
    scan (pos + offset) c rest = (scan pos c rest).mapError (Fault.shift offset) := by
  unfold scan
  split
  · cases Quoted.close c rest with
    | none => simp only [Except.mapError, Fault.shift, Span.shift_covering]
    | some r => rfl
  · cases Numeral.scan? (c :: rest) with
    | some r => rfl
    | none =>
      cases listOpening? (c :: rest) with
      | some r =>
        obtain ⟨gap, inner⟩ := r
        have hopened : listOpened (pos + offset) gap = listOpened pos gap + offset := by
          simp only [listOpened]
          omega
        simp only [scanList, hopened, Nesting.close_add]
        cases Nesting.close (listOpened pos gap) inner <;> rfl
      | none =>
        simp only [scanReference, Nesting.reach_add]
        split
        · cases Nesting.reach pos (c :: rest) <;> rfl
        · split <;> simp only [Except.mapError, Fault.shift, Span.char, Span.shift_covering]

/-- **Arguments move along** with their list. -/
theorem Token.scan_add (offset pos : Nat) (cs : List Char) :
    scan (pos + offset) cs = (scan pos cs).moved (moved offset) offset := by
  have hplace : ∀ pos' : Nat, ∀ text : List Char,
      pos' + offset + width (text.takeWhile isSeparator) =
        pos' + width (text.takeWhile isSeparator) + offset := fun _ _ => Nat.add_right_comm ..
  fun_induction scan pos cs with
  | case1 pos cs hcs =>
    rw [scan_nil hcs]
    rfl
  | case2 pos cs start c rest hcs fault hw =>
    have hscan : Written.scan (pos + offset + width (cs.takeWhile isSeparator)) c rest =
        .error (fault.shift offset) := by
      rw [hplace, Written.scan_add, hw]
      rfl
    exact scan_failed hcs hscan
  | case3 pos cs start c rest hcs w after hw hd =>
    have hscan : Written.scan (pos + offset + width (cs.takeWhile isSeparator)) c rest =
        .ok (w, after) := by
      rw [hplace, Written.scan_add, hw]
      rfl
    rw [scan_last hcs hscan hd, hplace]
    rfl
  | case4 pos cs start c rest hcs w after hw stop more hd ih =>
    have hscan : Written.scan (pos + offset + width (cs.takeWhile isSeparator)) c rest =
        .ok (w, after) := by
      rw [hplace, Written.scan_add, hw]
      rfl
    have hnext : start + offset + width w.text + width (after.takeWhile isBlank) + 1 =
        stop + 1 + offset := by
      show _ = start + width w.text + width (after.takeWhile isBlank) + 1 + offset
      omega
    rw [scan_comma hcs hscan hd, hplace, hnext, ih]
    rfl
  | case5 pos cs start c rest hcs w after hw stop d more hd hcomma =>
    have hscan : Written.scan (pos + offset + width (cs.takeWhile isSeparator)) c rest =
        .ok (w, after) := by
      rw [hplace, Written.scan_add, hw]
      rfl
    have hnext : start + offset + width w.text + width (after.takeWhile isBlank) =
        stop + offset := by
      show _ = start + width w.text + width (after.takeWhile isBlank) + offset
      omega
    rw [scan_unseparated hcs hscan hd hcomma, hplace, hnext]
    simp only [Scan.moved, Scan.failed, List.map_nil, Option.map_some, Fault.shift, Span.char,
      Span.shift_covering]

/-! ### Paths and argument lists -/

/-- The argument lists that stand in the segments of a path: where their
parentheses are, and what they hold. -/
def Path.Lists (pos : Nat) (cs : List Char) (opened : Nat) (inside : List Char) : Prop :=
  ∃ s ∈ (RawSegment.scan (pos + width (cs.takeWhile isBlank)) (cs.dropWhile isBlank)).items,
    s.opened = opened ∧ s.inside = some inside

/-- The argument lists that stand in an argument and in no other list of it. -/
def Token.Lists (t : Token) (opened : Nat) (inside : List Char) : Prop :=
  match t.written with
  | .quoted _ _ | .number _ => False
  | .list gap cs => Written.listOpened t.start gap = opened ∧ cs = inside
  | .reference name => Path.Lists t.start name opened inside

section

variable {arguments arguments' : Nat → List Char → Except Fault (List Arg)} {offset : Nat}

theorem Segment.read_add {s : RawSegment}
    (h : ∀ inside ∈ s.inside, arguments (s.opened + offset) inside =
      (arguments' s.opened inside).mapError (Fault.shift offset)) :
    read arguments (s.moved offset) = (read arguments' s).mapError (Fault.shift offset) := by
  obtain ⟨start, name, inside⟩ := s
  cases inside with
  | none => rfl
  | some inside =>
    have hinside := h inside rfl
    rw [read, read, RawSegment.opened_moved]
    simp only [RawSegment.moved, hinside]
    cases arguments' (RawSegment.opened ⟨start, name, some inside⟩) inside <;> rfl

/-- **A path is read as the same** wherever it stands, and faults move along. -/
theorem Path.read_add {pos : Nat} {cs : List Char}
    (h : ∀ opened inside, Path.Lists pos cs opened inside →
      arguments (opened + offset) inside =
        (arguments' opened inside).mapError (Fault.shift offset)) :
    read arguments (pos + offset) cs =
      (read arguments' pos cs).mapError (Fault.shift offset) := by
  have hstart : pos + offset + width (cs.takeWhile isBlank) =
      pos + width (cs.takeWhile isBlank) + offset := Nat.add_right_comm ..
  unfold Path.Lists at h
  unfold read
  dsimp only
  rw [hstart]
  cases hd : cs.dropWhile isBlank with
  | nil => simp only [Except.mapError, Fault.shift, Span.shift_covering]
  | cons c rest =>
    by_cases hc : c = '.'
    · by_cases hb : rest.all isBlank = true
      · simp only [if_pos hc, if_pos hb]
        rfl
      · simp only [if_pos hc, if_neg hb, Except.mapError, Fault.shift, Span.char,
          Span.shift_covering]
    · rw [hd] at h
      have hread := @Scan.traverse_moved _ _ (Segment.read arguments) (Segment.read arguments')
        (RawSegment.moved offset) offset
        (RawSegment.scan (pos + width (cs.takeWhile isBlank)) (c :: rest))
        fun s hs => Segment.read_add fun inside hi => h s.opened inside ⟨s, hs, rfl, hi⟩
      simp only [if_neg hc]
      rw [RawSegment.scan_add, hread]
      cases Scan.traverse (Segment.read arguments')
        (RawSegment.scan (pos + width (cs.takeWhile isBlank)) (c :: rest)) <;> rfl

theorem Arg.read_add {t : Token}
    (h : ∀ opened inside, t.Lists opened inside → arguments (opened + offset) inside =
      (arguments' opened inside).mapError (Fault.shift offset)) :
    read arguments (t.moved offset) = (read arguments' t).mapError (Fault.shift offset) := by
  obtain ⟨start, w⟩ := t
  cases w with
  | quoted mark body => rfl
  | number n =>
    have hspan : Token.span (Token.moved offset ⟨start, .number n⟩) =
        (Token.span ⟨start, .number n⟩).shift offset := (Span.shift_covering ..).symm
    simp only [read, Token.moved] at hspan ⊢
    split
    · rfl
    · split
      · rfl
      · simp only [hspan, Except.mapError, Fault.shift]
  | list gap inside =>
    have hopened : Written.listOpened (start + offset) gap =
        Written.listOpened start gap + offset := by
      simp only [Written.listOpened]
      omega
    have hinside := h _ inside ⟨rfl, rfl⟩
    simp only [read, Token.moved, hopened, hinside]
    cases arguments' (Written.listOpened start gap) inside <;> rfl
  | reference name =>
    have hpath := @Path.read_add arguments arguments' offset start name h
    simp only [read, Token.moved, hpath]
    cases Path.read arguments' start name <;> rfl

theorem Path.read_congr {pos : Nat} {cs : List Char}
    (h : ∀ opened inside, Path.Lists pos cs opened inside →
      arguments opened inside = arguments' opened inside) :
    read arguments pos cs = read arguments' pos cs := by
  have hread := @Path.read_add arguments arguments' 0 pos cs fun opened inside hlists => by
    rw [mapError_shift_zero]
    exact h opened inside hlists
  rwa [mapError_shift_zero] at hread

theorem Arg.read_congr {t : Token}
    (h : ∀ opened inside, t.Lists opened inside →
      arguments opened inside = arguments' opened inside) :
    read arguments t = read arguments' t := by
  have hread := @Arg.read_add arguments arguments' 0 t fun opened inside hlists => by
    rw [mapError_shift_zero]
    exact h opened inside hlists
  rwa [mapError_shift_zero] at hread

end

/-- **Argument lists are read as the same** wherever they stand. -/
theorem Arg.readList_add (offset : Nat) : ∀ (levels opened : Nat) (inside : List Char),
    readList levels (opened + offset) inside =
      (readList levels opened inside).mapError (Fault.shift offset)
  | 0, opened, inside => by
    simp only [readList, Except.mapError, Fault.shift, Span.char, Span.shift_covering]
  | levels + 1, opened, inside => by
    have hitems : ∀ t ∈ (Token.scan (opened + 1) inside).items,
        read (readList levels) (t.moved offset) =
          (read (readList levels) t).mapError (Fault.shift offset) :=
      fun t _ => read_add fun opened' inside' _ => readList_add offset levels opened' inside'
    show (Token.scan (opened + offset + 1) inside).traverse (read (readList levels)) =
      ((Token.scan (opened + 1) inside).traverse (read (readList levels))).mapError _
    rw [Nat.add_right_comm, Token.scan_add, Scan.traverse_moved hitems]

end TagScope
