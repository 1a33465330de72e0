/-
# Parentheses and their partners

One pass over a text says which parenthesis closes which (`Pass.Pairs`), and a group is what
stands between two such partners (`HasGroup`). What a group holds is closed, and that is all
there is to a group: it ends there whatever follows it (`Nesting.close_of_closes`), and
the pass agrees (`HasGroup.pairs`).

Whoever reads in a closed text can therefore not miss a partner. The scanners of arguments
and of segments begin quoted texts, groups, numbers and names by rules of their own and start
anew at every argument, but each of them stops where the pass has nothing open, so what is
left to read is closed again (`Token.closes_of_scan`, `RawSegment.skips_text`). So no fault in a
group says that a partner is missing (`Token.paired_of_scan`, `RawSegment.paired_of_scan`,
`Arg.paired_readList`), and a tag with such a fault has it in the segments of its own path,
whatever its argument lists hold (`Path.read_of_unpaired`).

Key definitions: `Pass.Pairs`, `HasGroup`, `SyntaxError.Cause.isUnpaired`, `Arg.Paired`.
Key theorems: `HasGroup.pairs`, `Nesting.close_of_closes`, `Token.paired_of_scan`,
`Path.paired_of_read`, `Arg.paired_readList`, `Path.read_of_unpaired`.
-/
import TagScope.Proofs.Faults
import TagScope.Proofs.InPlace

namespace TagScope

/-! ### Groups -/

namespace Pass

/-- In one pass over the text, the parenthesis at `opened` is closed by the one at `closed`:
wherever the pass comes to the first outside of quoted texts, it stays open all through what
stands between them, and behind the second the same is open as before the first. -/
def Pairs (src : List Char) (opened closed : Nat) : Prop :=
  ∃ before inside after, src = before ++ '(' :: inside ++ ')' :: after ∧
    opened = width before ∧ closed = width before + 1 + width inside ∧
    ∀ p : Pass, p.quote = none →
      (∀ part, part <+: inside → p.depth < (p.after ('(' :: part)).depth) ∧
        p.after ('(' :: inside ++ [')']) = p

theorem closesLast_of_closes : ∀ {cs : List Char} {p : Pass}, p.closes cs = true →
    (p.raise 1).closesLast (cs ++ [')']) = true
  | [], p, h => by
    obtain rfl := eq_of_isClear h
    rfl
  | c :: cs, p, h => by
    simp only [closes, Bool.and_eq_true, Bool.not_eq_true'] at h
    have hopen : (p.raise 1).isClear = false := by simp [isClear, raise]
    rw [List.cons_append, closesLast, hopen, next_raise 1 h.1, closesLast_of_closes h.2]
    rfl

theorem Skips.group {inside : List Char} (h : Pass.closes {} inside = true) :
    Skips {} {} ('(' :: inside ++ [')']) :=
  .cons (fun _ => by decide) (.of_closesLast (closesLast_of_closes h))

end Pass

/-- **A group of closed text ends there**, whatever stands behind it. -/
theorem Nesting.close_of_closes {inside : List Char} (h : Pass.closes {} inside = true)
    (opened : Nat) (after : List Char) :
    close opened (inside ++ ')' :: after) = .ok (inside, after) := by
  have hlast : (pass { depth := 1, opened }).closesLast (inside ++ [')']) = true :=
    Pass.closesLast_of_closes h
  obtain ⟨inside', heq, hclose⟩ :=
    @closeFrom_of_closesLast after _ { depth := 1, opened } (opened + 1) (by simp) hlast
  obtain rfl := List.append_cancel_right heq
  rw [List.append_assoc] at hclose
  exact hclose

/-- A group that opens in a text in which everything is closed ends in the text, and so does one
behind which nothing but white space is left. -/
theorem Nesting.exists_of_close_append {opened : Nat} {inner after inside more : List Char}
    (hclose : close opened (inner ++ after) = .ok (inside, more))
    (hends : Pass.closes {} ('(' :: inner) = true ∨ Blanks after) :
    ∃ rest, inner = inside ++ ')' :: rest := by
  rcases hends with hcloses | hblank
  · -- the parenthesis has its partner in the text, so no other is found
    obtain ⟨inside', rest, hclose'⟩ := @exists_close opened inner hcloses
    have hsame := close_append_right hclose' after
    obtain ⟨rfl, -⟩ := Prod.mk.inj (Except.ok.inj (hsame.symm.trans hclose))
    exact ⟨rest, eq_of_close hclose'⟩
  · -- what is found is no white space
    obtain ⟨rest, hrest, -⟩ :=
      eq_append_of_append_blanks hblank (by decide) (eq_of_close hclose)
    exact ⟨rest, hrest⟩

/-- A group of the text, with its parentheses at `opened` and at `closed`, and what it holds. -/
def HasGroup (src : List Char) (opened closed : Nat) (inside : List Char) : Prop :=
  ∃ before after, src = before ++ '(' :: inside ++ ')' :: after ∧ opened = width before ∧
    closed = width before + 1 + width inside ∧ Pass.closes {} inside = true

theorem HasGroup.closes {src inside : List Char} {opened closed : Nat}
    (h : HasGroup src opened closed inside) : Pass.closes {} inside = true := by
  obtain ⟨-, -, -, -, -, hcloses⟩ := h
  exact hcloses

theorem HasGroup.skips {src inside : List Char} {opened closed : Nat}
    (h : HasGroup src opened closed inside) : Pass.Skips {} {} ('(' :: inside ++ [')']) := by
  exact .group h.closes

/-- **The parentheses of a group are partners** in one pass. -/
theorem HasGroup.pairs {src inside : List Char} {opened closed : Nat}
    (h : HasGroup src opened closed inside) : Pass.Pairs src opened closed := by
  obtain ⟨before, after, hsrc, hopened, hclosed, hcloses⟩ := h
  refine ⟨before, inside, after, hsrc, hopened, hclosed, fun p hp => ?_⟩
  obtain ⟨quote, depth⟩ := p
  obtain rfl : quote = none := hp
  -- behind the first parenthesis, what the group holds adds to one more than was open
  have hdeeper : ∀ part, part <+: inside →
      Pass.after ⟨none, depth⟩ ('(' :: part) = (Pass.after {} part).raise (depth + 1) := by
    rintro part ⟨rest, rfl⟩
    exact Pass.after_deeper (depth + 1) hcloses
  constructor
  · intro part hpart
    rw [hdeeper part hpart]
    exact Nat.lt_of_lt_of_le (Nat.lt_succ_self depth) (Nat.le_add_left ..)
  · rw [Pass.after_append, hdeeper inside List.prefix_rfl, Pass.after_of_closes hcloses]
    simp [Pass.after, Pass.next, Pass.raise, Quoted.isMark]

/-! ### Faults in closed texts -/

/-- Whether an error says that a partner is missing: the second mark of a quoted text, or the
partner of a parenthesis. -/
def SyntaxError.Cause.isUnpaired : SyntaxError.Cause → Bool
  | .unterminatedString | .unclosedParen | .unmatchedParen => true
  | _ => false

/-- **The arguments of a closed list** have their partners. -/
theorem Token.paired_of_scan (pos : Nat) (cs : List Char) (hcloses : Pass.closes {} cs = true) :
    ∀ fault ∈ (scan pos cs).fault, fault.cause.isUnpaired = false := by
  fun_induction scan pos cs with
  | case1 => simp [Scan.done]
  | case2 pos cs start c rest hcs fault hw =>
    rw [(located_dropWhile 0 cs).1, hcs] at hcloses
    obtain ⟨rfl, -, -⟩ := Written.scan_eq_error hcloses hw
    simp [Scan.failed, SyntaxError.Cause.isUnpaired]
  | case3 => simp [Scan.cons, Scan.done]
  | case4 pos cs start c rest hcs w after hw stop more hd ih =>
    exact ih (closes_of_scan hcs hcloses hw hd)
  | case5 => simp [Scan.failed, SyntaxError.Cause.isUnpaired]

namespace RawSegment

theorem paired_misplaced (pos : Nat) {cs : List Char} (hcloses : Pass.closes {} cs = true) :
    (misplaced pos cs).cause.isUnpaired = false := by
  cases cs with
  | nil => rfl
  | cons c rest =>
    have hparen : c ≠ ')' := by
      rintro rfl
      simp [Pass.closes] at hcloses
    unfold misplaced
    by_cases hblank : (c :: rest).all isBlank = true
    · simp only [if_pos hblank]
      rfl
    · by_cases hdot : c = '.'
      · simp only [if_neg hblank, if_pos hdot]
        rfl
      · simp only [if_neg hblank, if_neg hdot, if_neg hparen]
        rfl

theorem paired_of_scan (pos : Nat) (cs : List Char) (hcloses : Pass.closes {} cs = true) :
    ∀ fault ∈ (scan pos cs).fault, fault.cause.isUnpaired = false := by
  fun_induction scan pos cs with
  | case1 pos cs fault hone =>
    obtain rfl := scanOne_eq_misplaced hcloses hone
    simpa [Scan.failed] using paired_misplaced pos hcloses
  | case2 => simp [Scan.cons, Scan.done]
  | case3 => simp [Scan.cons, Scan.done]
  | case4 pos cs s stop rest hone hblank _ =>
    rename_i ih
    rw [eq_text_of_scanOne hone, ((skips_text hone).1 _).1] at hcloses
    exact ih hcloses
  | case5 pos cs s stop c rest hone hblank hdot =>
    rw [eq_text_of_scanOne hone, ((skips_text hone).1 _).1] at hcloses
    simpa [Scan.cons, Scan.failed] using paired_misplaced stop hcloses

end RawSegment

/-! ### Reading in groups -/

/-- A reader of argument lists that never says of a closed list that a partner is missing. -/
def Arg.Paired (arguments : Nat → List Char → Except Fault (List Arg)) : Prop :=
  ∀ opened inside fault, Pass.closes {} inside = true →
    arguments opened inside = .error fault → fault.cause.isUnpaired = false

section

variable {arguments : Nat → List Char → Except Fault (List Arg)} {fault : Fault} {pos : Nat}
  {cs : List Char}

theorem Segment.paired_of_read (ha : Arg.Paired arguments) {s : RawSegment}
    (hs : s ∈ (RawSegment.scan pos cs).items) (h : read arguments s = .error fault) :
    fault.cause.isUnpaired = false := by
  obtain ⟨-, text, after, hone⟩ := RawSegment.stands_of_scan pos cs s hs
  cases hinside : s.inside with
  | none => simp [read, hinside] at h
  | some inside =>
    simp only [read, hinside, map_eq_error] at h
    exact ha _ inside fault ((RawSegment.skips_text hone).2 inside hinside) h

/-- A path can lack a partner only in its own segments. -/
theorem Path.scan_of_unpaired (ha : Arg.Paired arguments) (h : read arguments pos cs = .error fault)
    (hf : fault.cause.isUnpaired = true) : (cs.dropWhile isBlank).head? ≠ some '.' ∧
      (RawSegment.scan (pos + width (cs.takeWhile isBlank)) (cs.dropWhile isBlank)).fault =
        some fault := by
  unfold read at h
  cases hd : cs.dropWhile isBlank with
  | nil =>
    simp only [hd, Except.error.injEq] at h
    subst h
    simp [SyntaxError.Cause.isUnpaired] at hf
  | cons c rest =>
    simp only [hd] at h
    by_cases hdot : c = '.'
    · rw [if_pos hdot] at h
      by_cases hblank : rest.all isBlank = true
      · simp [hblank] at h
      · simp only [if_neg hblank, Except.error.injEq] at h
        subst h
        simp [SyntaxError.Cause.isUnpaired] at hf
    · rw [if_neg hdot, map_eq_error] at h
      refine ⟨by simpa using hdot, ?_⟩
      rcases Scan.traverse_eq_error h with ⟨s, hs, hread⟩ | hscan
      · rw [Segment.paired_of_read ha hs hread] at hf
        exact absurd hf (by simp)
      · exact hscan

/-- **A closed path** has its partners. -/
theorem Path.paired_of_read (ha : Arg.Paired arguments) (hcloses : Pass.closes {} cs = true)
    (h : read arguments pos cs = .error fault) : fault.cause.isUnpaired = false := by
  by_contra hf
  have hscan := (scan_of_unpaired ha h (by simpa using hf)).2
  rw [← List.takeWhile_append_dropWhile (p := isBlank) (l := cs),
    ((blanks_takeWhile cs).skips _).1] at hcloses
  exact hf (RawSegment.paired_of_scan _ _ hcloses fault hscan)

/-- **An argument that stands in a list** has its partners. -/
theorem Arg.paired_of_read (ha : Arg.Paired arguments) {t : Token} (ht : t.written.Checked)
    (h : read arguments t = .error fault) : fault.cause.isUnpaired = false := by
  obtain ⟨start, w⟩ := t
  cases w with
  | quoted mark body => simp [read] at h
  | number n =>
    simp only [read] at h
    split at h
    · simp at h
    · split at h
      · simp at h
      · cases h
        rfl
  | list gap inside =>
    simp only [read, map_eq_error] at h
    exact ha _ inside fault ht h
  | reference name =>
    simp only [read, map_eq_error] at h
    exact Path.paired_of_read ha ht.1 h

end

/-- **In a group no partner is missing**, however many more lists may be open in it. -/
theorem Arg.paired_readList : ∀ levels, Arg.Paired (readList levels)
  | 0 => fun opened inside fault _ h => by
    cases h
    rfl
  | levels + 1 => fun opened inside fault hcloses h => by
    rcases Scan.traverse_eq_error h with ⟨t, ht, hread⟩ | hscan
    · obtain ⟨-, c, rest, after, hw⟩ := Token.stands_of_scan _ _ t ht
      exact Arg.paired_of_read (paired_readList levels) (Written.checked_of_scan hw) hread
    · exact Token.paired_of_scan _ inside hcloses fault hscan

/-! ### The outermost path -/

/-- Where every item can be read, the fault of the scan is what is wrong. -/
theorem Scan.traverse_of_fault {α β : Type} {f : α → Except Fault β} {fault : Fault} :
    ∀ {s : Scan α}, (∀ a ∈ s.items, ∃ b, f a = .ok b) → s.fault = some fault →
      s.traverse f = .error fault
  | ⟨[], _⟩, _, h => by
    cases h
    rfl
  | ⟨a :: items, last⟩, hread, h => by
    obtain ⟨⟨b, hb⟩, hrest⟩ := List.forall_mem_cons.1 hread
    have htail : Scan.traverse f ⟨items, last⟩ = .error fault := traverse_of_fault hrest h
    show (cons a ⟨items, last⟩).traverse f = .error fault
    rw [traverse_cons, hb, htail]
    rfl

/-- **What lacks a partner is the path itself**: the fault is the same whatever stands in its
argument lists, as long as they can be read. -/
theorem Path.read_of_unpaired {arguments arguments' : Nat → List Char → Except Fault (List Arg)}
    {pos : Nat} {cs : List Char} {fault : Fault} (ha : Arg.Paired arguments)
    (hread : ∀ opened inside, ∃ as, arguments' opened inside = .ok as)
    (h : read arguments pos cs = .error fault) (hf : fault.cause.isUnpaired = true) :
    read arguments' pos cs = .error fault := by
  obtain ⟨hhead, hscan⟩ := scan_of_unpaired ha h hf
  have hitems : ∀ s ∈ (RawSegment.scan (pos + width (cs.takeWhile isBlank))
      (cs.dropWhile isBlank)).items, ∃ segment, Segment.read arguments' s = .ok segment := by
    intro s _
    cases hinside : s.inside with
    | none => exact ⟨_, by rw [Segment.read, hinside]⟩
    | some inside =>
      obtain ⟨as, has⟩ := hread s.opened inside
      exact ⟨.call (String.ofList s.name) as, by simp [Segment.read, hinside, has, Except.map]⟩
  have htraverse := Scan.traverse_of_fault hitems hscan
  unfold read at h ⊢
  cases hd : cs.dropWhile isBlank with
  | nil =>
    simp only [hd] at h
    exact h
  | cons c rest =>
    rw [hd] at hhead htraverse
    have hdot : c ≠ '.' := by simpa using hhead
    simp only [if_neg hdot, htraverse]
    rfl

end TagScope
