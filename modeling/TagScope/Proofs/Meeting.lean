/-
# What reading comes to

Reading a tag goes from left to right and stops at the first error. So it comes to
an argument only if everything before it could be read: the arguments before it in
its list, and before that list the segments and arguments that stand before it
(`Path.Enters`, `Path.Meets`). An argument that reading comes to decides: if it
cannot be read, its error is the error of the tag (`Path.Meets.parse_eq_error`), and
the literals of a path are those that reading has come to
(`Path.mem_literals_iff`).

Key definitions: `Scan.ComesTo`, `Path.Enters`, `Path.Meets`.
Key theorems: `Path.Enters.read_eq_error`, `Path.Meets.placed`, `Path.mem_literals_iff`.
-/
import TagScope.Proofs.Faults
import TagScope.Proofs.Printing
import TagScope.Proofs.Reached

namespace TagScope

/-! ### Scans -/

namespace Scan

variable {α β : Type} {f : α → Except Fault β} {s : Scan α} {a : α} {bs : List β}

/-- Whether reading a scan comes to an item: all items before it can be read. -/
def ComesTo (f : α → Except Fault β) (s : Scan α) (a : α) : Prop :=
  ∃ before after, s.items = before ++ a :: after ∧ ∀ b ∈ before, ∃ r, f b = .ok r

theorem ComesTo.mem (h : s.ComesTo f a) : a ∈ s.items := by
  obtain ⟨before, after, hitems, -⟩ := h
  simp [hitems]

/-- **An item that is come to and cannot be read** ends the reading. -/
theorem ComesTo.traverse_eq_error {fault : Fault} (h : s.ComesTo f a) (ha : f a = .error fault) :
    s.traverse f = .error fault := by
  obtain ⟨items, last⟩ := s
  obtain ⟨before, after, hitems, hbefore⟩ := h
  simp only at hitems
  subst hitems
  induction before with
  | nil =>
    show (cons a ⟨after, last⟩).traverse f = _
    rw [traverse_cons, ha]
    rfl
  | cons b before ih =>
    obtain ⟨⟨r, hr⟩, hbefore⟩ := List.forall_mem_cons.1 hbefore
    show (cons b ⟨before ++ a :: after, last⟩).traverse f = _
    rw [traverse_cons, hr, ih hbefore]
    rfl

theorem forall_of_traverse : ∀ {s : Scan α} {bs : List β}, s.traverse f = .ok bs →
    (∀ a ∈ s.items, ∃ b ∈ bs, f a = .ok b) ∧ ∀ b ∈ bs, ∃ a ∈ s.items, f a = .ok b
  | ⟨[], none⟩, bs, h => by
    obtain rfl : [] = bs := Except.ok.inj h
    simp
  | ⟨[], some fault⟩, _, h => by simp [traverse, pure, Except.pure, bind, Except.bind] at h
  | ⟨a :: items, last⟩, _, h => by
    have hcons : (cons a ⟨items, last⟩).traverse f = .ok _ := h
    obtain ⟨b, rest, ha, hrest, rfl⟩ := traverse_cons_eq_ok.1 hcons
    obtain ⟨hitems, hread⟩ := forall_of_traverse hrest
    refine ⟨List.forall_mem_cons.2 ⟨⟨b, List.mem_cons_self, ha⟩, fun c hc => ?_⟩,
      List.forall_mem_cons.2 ⟨⟨a, List.mem_cons_self, ha⟩, fun r hr => ?_⟩⟩
    · obtain ⟨r, hr, hc⟩ := hitems c hc
      exact ⟨r, List.mem_cons_of_mem _ hr, hc⟩
    · obtain ⟨c, hc, hr⟩ := hread r hr
      exact ⟨c, List.mem_cons_of_mem _ hc, hr⟩

theorem comesTo_of_traverse (h : s.traverse f = .ok bs) (ha : a ∈ s.items) : s.ComesTo f a := by
  obtain ⟨before, after, hitems⟩ := List.append_of_mem ha
  refine ⟨before, after, hitems, fun b hb => ?_⟩
  obtain ⟨r, -, hr⟩ := (forall_of_traverse h).1 b (by simp [hitems, hb])
  exact ⟨r, hr⟩

end Scan

/-! ### Argument lists -/

section

variable {arguments : Nat → List Char → Except Fault (List Arg)}

/-- Whether reading a path comes to an argument list of one of its segments. -/
def Path.Leads (arguments : Nat → List Char → Except Fault (List Arg)) (pos : Nat)
    (cs : List Char) (opened : Nat) (inside : List Char) : Prop :=
  ∃ s, (RawSegment.scan (pos + width (cs.takeWhile isBlank)) (cs.dropWhile isBlank)).ComesTo
    (Segment.read arguments) s ∧ s.opened = opened ∧ s.inside = some inside

/-- Whether reading an argument comes to an argument list that is in no other. -/
def Token.Leads (arguments : Nat → List Char → Except Fault (List Arg)) (t : Token)
    (opened : Nat) (inside : List Char) : Prop :=
  match t.written with
  | .quoted _ _ | .number _ => False
  | .list gap cs => Written.listOpened t.start gap = opened ∧ cs = inside
  | .reference name => Path.Leads arguments t.start name opened inside

variable {pos opened : Nat} {cs inside : List Char} {t : Token} {fault : Fault} {v : Value}

theorem Path.Leads.lists (h : Path.Leads arguments pos cs opened inside) :
    Path.Lists pos cs opened inside := by
  obtain ⟨s, hs, hopened, hinside⟩ := h
  exact ⟨s, hs.mem, hopened, hinside⟩

theorem Token.Leads.lists (h : t.Leads arguments opened inside) : t.Lists opened inside := by
  obtain ⟨start, w⟩ := t
  cases w with
  | reference name => exact Path.Leads.lists h
  | list | quoted | number => exact h

theorem RawSegment.items_scan_of_stops (pos : Nat) (h : Stops isNameChar cs) :
    (scan pos cs).items = [] := by
  rw [scan_failed (scanOne_misplaced h pos)]
  rfl

theorem Path.read_of_items {s : RawSegment}
    (h : s ∈ (RawSegment.scan (pos + width (cs.takeWhile isBlank)) (cs.dropWhile isBlank)).items) :
    read arguments pos cs = ((RawSegment.scan (pos + width (cs.takeWhile isBlank))
      (cs.dropWhile isBlank)).traverse (Segment.read arguments)).map .segments := by
  unfold Path.read
  dsimp only
  cases hd : cs.dropWhile isBlank with
  | nil =>
    rw [hd, RawSegment.items_scan_of_stops _ (stops_nil _)] at h
    exact absurd h List.not_mem_nil
  | cons c rest =>
    have hdot : c ≠ '.' := by
      rintro rfl
      rw [hd, RawSegment.items_scan_of_stops _ (stops_cons.2 (by decide))] at h
      exact absurd h List.not_mem_nil
    simp only [if_neg hdot]

theorem Path.eq_of_read {p : Path} (h : read arguments pos cs = .ok p) :
    p = .current ∧ (RawSegment.scan (pos + width (cs.takeWhile isBlank))
      (cs.dropWhile isBlank)).items = [] ∨
    ∃ ss, (RawSegment.scan (pos + width (cs.takeWhile isBlank))
      (cs.dropWhile isBlank)).traverse (Segment.read arguments) = .ok ss ∧ p = .segments ss := by
  unfold Path.read at h
  dsimp only at h
  cases hd : cs.dropWhile isBlank with
  | nil => simp [hd] at h
  | cons c rest =>
    by_cases hdot : c = '.'
    · subst hdot
      refine Or.inl ⟨?_, RawSegment.items_scan_of_stops _ (stops_cons.2 (by decide))⟩
      simp only [hd, if_true] at h
      by_cases hb : rest.all isBlank = true
      · rw [if_pos hb] at h
        exact (Except.ok.inj h).symm
      · simp [hb] at h
    · simp only [hd, if_neg hdot, map_eq_ok] at h
      obtain ⟨ss, hss, rfl⟩ := h
      exact Or.inr ⟨ss, hss, rfl⟩

/-- **A list that a path leads to and that cannot be read** ends the reading. -/
theorem Path.Leads.read_eq_error (h : Path.Leads arguments pos cs opened inside)
    (he : arguments opened inside = .error fault) : read arguments pos cs = .error fault := by
  obtain ⟨s, hs, rfl, hinside⟩ := h
  have hread : Segment.read arguments s = .error fault := by
    rw [Segment.read]
    simp only [hinside, he]
    rfl
  rw [Path.read_of_items hs.mem, hs.traverse_eq_error hread]
  rfl

theorem Token.Leads.read_eq_error (h : t.Leads arguments opened inside)
    (he : arguments opened inside = .error fault) : Arg.read arguments t = .error fault := by
  obtain ⟨start, w⟩ := t
  cases w with
  | quoted => exact h.elim
  | number => exact h.elim
  | list gap cs =>
    obtain ⟨rfl, rfl⟩ := h
    simp only [Arg.read, he]
    rfl
  | reference name =>
    simp only [Arg.read, Path.Leads.read_eq_error h he]
    rfl

/-! ### Literals of lists -/

theorem Arg.mem_literalsAll {as : List Arg} :
    v ∈ literalsAll as ↔ ∃ a ∈ as, v ∈ a.literals := by
  induction as with
  | nil => simp [literalsAll]
  | cons a as ih =>
    rw [literalsAll, List.mem_append, ih]
    simp

theorem Segment.mem_literalsAll {ss : List Segment} :
    v ∈ literalsAll ss ↔ ∃ s ∈ ss, v ∈ s.literals := by
  induction ss with
  | nil => simp [literalsAll]
  | cons s ss ih =>
    rw [literalsAll, List.mem_append, ih]
    simp

theorem Segment.literals_of_read {raw : RawSegment} {s : Segment}
    (h : read arguments raw = .ok s) : v ∈ s.literals ↔
      ∃ inside as, raw.inside = some inside ∧ arguments raw.opened inside = .ok as ∧
        v ∈ Arg.literalsAll as := by
  unfold read at h
  dsimp only at h
  cases hi : raw.inside with
  | none =>
    simp only [hi, Except.ok.injEq] at h
    subst h
    simp [literals]
  | some inside =>
    simp only [hi, map_eq_ok] at h
    obtain ⟨as, has, rfl⟩ := h
    simp [literals, has]

/-- **The literals of a path** are those of the lists that it leads to. -/
theorem Path.mem_literals_of_read {p : Path} (h : read arguments pos cs = .ok p) :
    v ∈ p.literals ↔ ∃ opened inside as, Path.Leads arguments pos cs opened inside ∧
      arguments opened inside = .ok as ∧ v ∈ Arg.literalsAll as := by
  rcases eq_of_read h with ⟨rfl, hnone⟩ | ⟨ss, hss, rfl⟩
  · refine iff_of_false List.not_mem_nil ?_
    rintro ⟨opened, inside, as, ⟨s, hs, -⟩, -⟩
    have hmem := hs.mem
    rw [hnone] at hmem
    exact absurd hmem List.not_mem_nil
  · obtain ⟨hitems, hread⟩ := Scan.forall_of_traverse hss
    rw [literals, Segment.mem_literalsAll]
    constructor
    · rintro ⟨s, hs, hv⟩
      obtain ⟨raw, hraw, hs⟩ := hread s hs
      obtain ⟨inside, as, hinside, has, hv⟩ := (Segment.literals_of_read hs).1 hv
      exact ⟨_, inside, as, ⟨raw, Scan.comesTo_of_traverse hss hraw, rfl, hinside⟩, has, hv⟩
    · rintro ⟨_, inside, as, ⟨raw, hraw, rfl, hinside⟩, has, hv⟩
      obtain ⟨s, hs, hread⟩ := hitems raw hraw.mem
      exact ⟨s, hs, (Segment.literals_of_read hread).2 ⟨inside, as, hinside, has, hv⟩⟩

/-- **The literals of an argument**: itself, or those of the lists that it leads to. -/
theorem Arg.mem_literals_of_read {a : Arg} (h : read arguments t = .ok a) :
    v ∈ a.literals ↔ a = .literal v ∨ ∃ opened inside as, t.Leads arguments opened inside ∧
      arguments opened inside = .ok as ∧ v ∈ literalsAll as := by
  have hliteral : ∀ w : Value, v ∈ (Arg.literal w).literals ↔ Arg.literal w = .literal v := by
    intro w
    rw [literals, List.mem_singleton, Arg.literal.injEq, eq_comm]
  obtain ⟨start, w⟩ := t
  unfold Token.Leads
  cases w with
  | quoted mark body =>
    obtain rfl : _ = a := Except.ok.inj h
    simp [hliteral]
  | number n =>
    obtain ⟨w, rfl⟩ : ∃ w, a = .literal w := by
      simp only [read] at h
      split at h
      · exact ⟨_, (Except.ok.inj h).symm⟩
      · split at h
        · exact ⟨_, (Except.ok.inj h).symm⟩
        · simp at h
    simp [hliteral]
  | list gap cs =>
    obtain ⟨items, hitems, rfl⟩ := map_eq_ok.1 h
    simp [literals, hitems]
  | reference name =>
    obtain ⟨p, hp, rfl⟩ := map_eq_ok.1 h
    simp only [literals, Path.mem_literals_of_read hp, reduceCtorEq, false_or]

end

/-! ### Tags -/

/-- The argument lists that the reading of a tag comes to: how many may be open at a
time, the list included, where it opens, and what it holds. -/
inductive Path.Enters (tag : List Char) : Nat → Nat → List Char → Prop where
  /-- The list of a segment of the tag. -/
  | segment {opened : Nat} {inside : List Char} :
    Path.Leads (Arg.readList maxNesting) 0 tag opened inside →
    Path.Enters tag maxNesting opened inside
  /-- A list in an argument of a list. -/
  | argument {levels opened opened' : Nat} {inside inside' : List Char} {t : Token} :
    Path.Enters tag (levels + 1) opened inside →
    (Token.scan (opened + 1) inside).ComesTo (Arg.read (Arg.readList levels)) t →
    t.Leads (Arg.readList levels) opened' inside' → Path.Enters tag levels opened' inside'

/-- The arguments that the reading of a tag comes to, with the number of lists that may
be open in each. -/
def Path.Meets (tag : List Char) (levels : Nat) (t : Token) : Prop :=
  ∃ opened inside, Path.Enters tag (levels + 1) opened inside ∧
    (Token.scan (opened + 1) inside).ComesTo (Arg.read (Arg.readList levels)) t

namespace Path

variable {tag inside : List Char} {levels opened : Nat} {t : Token} {fault : Fault} {v : Value}
  {p : Path}

/-- **A list that is entered and cannot be read** ends the reading of the tag. -/
theorem Enters.read_eq_error (h : Enters tag levels opened inside)
    (he : Arg.readList levels opened inside = .error fault) :
    read (Arg.readList maxNesting) 0 tag = .error fault := by
  induction h with
  | segment hleads => exact hleads.read_eq_error he
  | argument _ ht hleads ih => exact ih (ht.traverse_eq_error (hleads.read_eq_error he))

/-- **An argument that is met and cannot be read** is the error of the tag. -/
theorem Meets.parse_eq_error {tag : String} (h : Meets tag.toList levels t)
    (he : Arg.read (Arg.readList levels) t = .error fault) :
    parse tag = .error (fault.within tag) := by
  obtain ⟨opened, inside, hlist, ht⟩ := h
  rw [parse, hlist.read_eq_error (ht.traverse_eq_error he)]
  rfl

theorem Enters.reaches (h : Enters tag levels opened inside) :
    ∃ n, Reaches tag n opened inside := by
  induction h with
  | segment hleads => exact ⟨0, .segment hleads.lists⟩
  | argument _ ht hleads ih =>
    obtain ⟨n, hn⟩ := ih
    exact ⟨n + 1, .argument hn ht.mem hleads.lists⟩

/-- **An argument that is met stands in the tag** as an argument does. -/
theorem Meets.placed (h : Meets tag levels t) : t.Placed tag := by
  obtain ⟨opened, inside, hlist, ht⟩ := h
  obtain ⟨n, hn⟩ := hlist.reaches
  obtain ⟨⟨before, after, htag, hopened, -⟩, hcloses⟩ := hn.stands
  have hplace : tag = before ++ ['('] ++ inside ++ ')' :: after := by simp [htag]
  have hpos : opened + 1 = width (before ++ ['(']) := by
    rw [hopened, width_append]
    rfl
  have hopens : OpensArgument (before ++ ['(']) := ⟨'(', by simp, Or.inl rfl⟩
  exact (Token.pointsInto_of_scan _ inside hpos hplace hopens hcloses).2 t ht.mem

theorem Enters.literals (h : Enters tag levels opened inside)
    (hp : read (Arg.readList maxNesting) 0 tag = .ok p) :
    ∃ as, Arg.readList levels opened inside = .ok as ∧
      ∀ v ∈ Arg.literalsAll as, v ∈ p.literals := by
  induction h with
  | @segment opened inside hleads =>
    cases has : Arg.readList maxNesting opened inside with
    | error fault => rw [hleads.read_eq_error has] at hp; simp at hp
    | ok as =>
      exact ⟨as, rfl, fun v hv => (mem_literals_of_read hp).2 ⟨opened, inside, as, hleads, has, hv⟩⟩
  | @argument levels opened opened' inside inside' t _ ht hleads ih =>
    obtain ⟨bs, hbs, hliterals⟩ := ih
    obtain ⟨a, ha, hread⟩ := (Scan.forall_of_traverse hbs).1 t ht.mem
    cases has : Arg.readList levels opened' inside' with
    | error fault => rw [hleads.read_eq_error has] at hread; simp at hread
    | ok as =>
      refine ⟨as, rfl, fun v hv => hliterals v (Arg.mem_literalsAll.2 ⟨a, ha, ?_⟩)⟩
      exact (Arg.mem_literals_of_read hread).2 (Or.inr ⟨_, _, as, hleads, has, hv⟩)

theorem Enters.meets_of_mem : ∀ {levels opened : Nat} {inside : List Char} {as : List Arg},
    Enters tag levels opened inside → Arg.readList levels opened inside = .ok as →
    v ∈ Arg.literalsAll as →
    ∃ levels t, Meets tag levels t ∧ Arg.read (Arg.readList levels) t = .ok (.literal v)
  | 0, _, _, _, _, has, _ => by simp [Arg.readList] at has
  | levels + 1, opened, inside, as, h, has, hv => by
    obtain ⟨a, ha, hva⟩ := Arg.mem_literalsAll.1 hv
    obtain ⟨t, ht, hread⟩ := (Scan.forall_of_traverse has).2 a ha
    have hcomes := Scan.comesTo_of_traverse has ht
    rcases (Arg.mem_literals_of_read hread).1 hva with rfl | ⟨_, _, bs, hleads, hbs, hvb⟩
    · exact ⟨levels, t, ⟨opened, inside, h, hcomes⟩, hread⟩
    · exact meets_of_mem (.argument h hcomes hleads) hbs hvb

/-- **The literals of a path** that was read are those that its reading came to. -/
theorem mem_literals_iff {tag : String} (hp : parse tag = .ok p) : v ∈ p.literals ↔
    ∃ levels t, Meets tag.toList levels t ∧
      Arg.read (Arg.readList levels) t = .ok (.literal v) := by
  have hread := parse_eq_ok.1 hp
  constructor
  · intro hv
    obtain ⟨opened, inside, as, hleads, has, hva⟩ := (mem_literals_of_read hread).1 hv
    exact (Enters.segment hleads).meets_of_mem has hva
  · rintro ⟨levels, t, ⟨opened, inside, hlist, ht⟩, hv⟩
    obtain ⟨as, has, hliterals⟩ := hlist.literals hread
    obtain ⟨a, ha, hread'⟩ := (Scan.forall_of_traverse has).1 t ht.mem
    obtain rfl : Arg.literal v = a := Except.ok.inj (hv.symm.trans hread')
    exact hliterals v (Arg.mem_literalsAll.2 ⟨_, ha, by simp [Arg.literals]⟩)

end Path

end TagScope
