/-
# The limit cuts exactly

A reader of tags may keep a counter instead of being told how many levels are
left: it counts up where an argument list begins, refuses to go on if the count
is beyond the limit, and counts down where the list has been read to its end,
and only there. Here is that reader, with the limit or without, and with a
record of all lists that it has begun (`Path.parseCounting`).

With the limit it reads every tag as `Path.parse` does. Without it, it gives the
same result as long as it comes to no list beyond the limit, and otherwise the
limit turns its result into an error at the first of them
(`Path.parse_eq_parseCounting`). The counter is never wrong: where a list
begins, it is the number of lists around it, and so the number of parentheses
that are open there. Lists beside one another do not add up.

The proof compares the two readers step by step. `Counts` says of one step what
it adds to the record and to the counter and how its result is related to that
of the other reader; it passes from the parts of a reader to the whole
(`Counts.bind`, `Counts.guarded`).

Key definitions: `Opening`, `Tally`, `Counting`, `Arg.readListCounting`,
`Path.parseCounting`, `cut`, `Counts`.
Key theorems: `Arg.readListCounting_eq`, `Counts.bind`, `Counts.guarded`,
`Arg.counts_readListCounting`, `Path.parse_eq_parseCounting`.
-/
import TagScope.Proofs.Reached

namespace TagScope

/-! ### The reader -/

/-- The beginning of an argument list: what the counter shows before the list is
counted, where its parenthesis stands and what it holds. -/
structure Opening where
  enclosing : Nat
  start : Nat
  inside : List Char
  deriving DecidableEq, Repr

/-- The level of the list, where the lists of a tag itself are at level 1. -/
def Opening.level (o : Opening) : Nat := o.enclosing + 1

/-- What the reader keeps: the counter, and the lists that it has begun, the
earliest first. -/
structure Tally where
  nesting : Nat := 0
  begun : List Opening := []
  deriving DecidableEq, Repr

/-- A reader that counts. -/
abbrev Counting := ExceptT Fault (StateM Tally)

namespace Counting

/-- A list begins. The counter goes up, and with a limit the list may be refused. -/
def enter (limited : Bool) (opened : Nat) (inside : List Char) : Counting Unit := fun t =>
  let entered : Tally := ⟨t.nesting + 1, t.begun ++ [⟨t.nesting, opened, inside⟩]⟩
  if limited && Path.maxNesting < entered.nesting then
    (.error ⟨.tooDeep, .char opened '('⟩, entered)
  else (.ok (), entered)

/-- A list has been read to its end. The counter goes down. -/
def leave : Counting Unit := fun t => (.ok (), { t with nesting := t.nesting - 1 })

end Counting

/-- Each item read by `f`, up to what fails first. -/
def Scan.traverseCounting {α β : Type} (f : α → Counting β) (s : Scan α) :
    Counting (List β) := do
  let read ← s.items.mapM f
  match s.fault with
  | none => pure read
  | some fault => throw fault

/-- Reads the arguments of a segment. -/
def Segment.readCounting (arguments : Nat → List Char → Counting (List Arg)) (s : RawSegment) :
    Counting Segment :=
  let name := String.ofList s.name
  match s.inside with
  | none => pure (.bare name)
  | some inside => do return .call name (← arguments s.opened inside)

/-- Reads the path that stands alone in a text, which begins at `pos`. -/
def Path.readCounting (arguments : Nat → List Char → Counting (List Arg)) (pos : Nat)
    (cs : List Char) : Counting Path :=
  let start := pos + width (cs.takeWhile isBlank)
  match cs.dropWhile isBlank with
  | [] => throw ⟨.emptyPath, .covering pos cs⟩
  | c :: rest =>
    if c = '.' then
      if rest.all isBlank then pure .current else throw ⟨.misplacedDot, .char start c⟩
    else do
      return .segments (← (RawSegment.scan start (c :: rest)).traverseCounting
        (Segment.readCounting arguments))

/-- Reads one argument. -/
def Arg.readCounting (arguments : Nat → List Char → Counting (List Arg)) (t : Token) :
    Counting Arg :=
  match t.written with
  | .list gap inside => do return .list (← arguments (Written.listOpened t.start gap) inside)
  | .reference name => do return .path (← Path.readCounting arguments t.start name)
  -- there is no list in a literal
  | .quoted _ _ | .number _ => ExceptT.mk (pure (read (fun _ _ => .ok []) t))

/-- Reads an argument list. A list inside another is shorter, which is why the
reader comes to an end without a limit. -/
def Arg.readListCounting (limited : Bool) (opened : Nat) (inside : List Char) :
    Counting (List Arg) := do
  Counting.enter limited opened inside
  let args ← (Token.scan (opened + 1) inside).traverseCounting
    (readCounting fun opened' inside' =>
      if _h : inside'.length < inside.length then readListCounting limited opened' inside'
      else throw ⟨.tooDeep, .char opened' '('⟩)
  Counting.leave
  return args
termination_by inside.length

/-- Reads a tag, with the limit or without. Gives the lists that have been begun,
too. -/
def Path.parseCounting (limited : Bool) (tag : String) :
    Except SyntaxError Path × List Opening :=
  let (result, tally) := readCounting (Arg.readListCounting limited) 0 tag.toList {}
  (result.mapError (Fault.within tag), tally.begun)

/-! ### The reader comes to every list -/

theorem Scan.traverseCounting_congr {α β : Type} {f g : α → Counting β} {s : Scan α}
    (h : ∀ a ∈ s.items, f a = g a) : s.traverseCounting f = s.traverseCounting g := by
  have hitems : ∀ items : List α, (∀ a ∈ items, f a = g a) → items.mapM f = items.mapM g := by
    intro items
    induction items with
    | nil => exact fun _ => rfl
    | cons a items ih =>
      intro h
      rw [List.mapM_cons, List.mapM_cons, h a List.mem_cons_self,
        ih fun b hb => h b (List.mem_cons_of_mem _ hb)]
  unfold traverseCounting
  rw [hitems s.items h]

section

variable {counting counting' : Nat → List Char → Counting (List Arg)}

theorem Segment.readCounting_congr {s : RawSegment}
    (h : ∀ inside ∈ s.inside, counting s.opened inside = counting' s.opened inside) :
    readCounting counting s = readCounting counting' s := by
  unfold readCounting
  cases hs : s.inside with
  | none => rfl
  | some inside => simp only [h inside hs]

theorem Path.readCounting_congr {pos : Nat} {cs : List Char}
    (h : ∀ opened inside, Path.Lists pos cs opened inside →
      counting opened inside = counting' opened inside) :
    readCounting counting pos cs = readCounting counting' pos cs := by
  unfold Path.Lists at h
  unfold readCounting
  dsimp only
  cases hd : cs.dropWhile isBlank with
  | nil => rfl
  | cons c rest =>
    rw [hd] at h
    have hsegments := @Scan.traverseCounting_congr _ _ (Segment.readCounting counting)
      (Segment.readCounting counting')
      (RawSegment.scan (pos + width (cs.takeWhile isBlank)) (c :: rest)) fun s hs =>
        Segment.readCounting_congr fun inside hi => h s.opened inside ⟨s, hs, rfl, hi⟩
    simp only [hsegments]

theorem Arg.readCounting_congr {t : Token}
    (h : ∀ opened inside, t.Lists opened inside →
      counting opened inside = counting' opened inside) :
    readCounting counting t = readCounting counting' t := by
  obtain ⟨start, w⟩ := t
  cases w with
  | quoted mark body => rfl
  | number n => rfl
  | list gap inside =>
    have hinside := h _ inside ⟨rfl, rfl⟩
    simp only [readCounting, hinside]
  | reference name =>
    have hpath := Path.readCounting_congr h
    simp only [readCounting, hpath]

end

theorem Token.Lists.length_lt {pos opened : Nat} {cs inside : List Char} {t : Token}
    (ht : t ∈ (Token.scan pos cs).items) (h : t.Lists opened inside) :
    inside.length < cs.length := by
  obtain ⟨⟨start, -, left, right, hcs, -⟩, c, rest, after, hw⟩ := Token.stands_of_scan _ _ t ht
  obtain ⟨⟨start', -, left', right', htext, -⟩, -⟩ := h.stands hw
  rw [hcs, htext]
  simp only [List.length_append, List.length_cons]
  omega

/-- **No list is left out** because of its length: this is how a list is read. -/
theorem Arg.readListCounting_eq (limited : Bool) (opened : Nat) (inside : List Char) :
    readListCounting limited opened inside = (do
      Counting.enter limited opened inside
      let args ← (Token.scan (opened + 1) inside).traverseCounting
        (readCounting (readListCounting limited))
      Counting.leave
      return args) := by
  have hitems := @Scan.traverseCounting_congr _ _
    (readCounting fun opened' inside' =>
      if _h : inside'.length < inside.length then readListCounting limited opened' inside'
      else throw ⟨.tooDeep, .char opened' '('⟩)
    (readCounting (readListCounting limited)) (Token.scan (opened + 1) inside)
    fun t ht => readCounting_congr fun opened' inside' hlists =>
      dif_pos (Token.Lists.length_lt ht hlists)
  rw [readListCounting, hitems]

/-! ### What the limit makes of a result -/

/-- What the limit makes of a result: an error at the first list that is begun
beyond it. -/
def cut {α : Type} (begun : List Opening) (result : Except Fault α) : Except Fault α :=
  match begun.find? fun o => o.enclosing = Path.maxNesting with
  | some o => .error ⟨.tooDeep, .char o.start '('⟩
  | none => result

section

variable {α β : Type}

theorem cut_append (xs ys : List Opening) (result : Except Fault α) :
    cut (xs ++ ys) result = cut xs (cut ys result) := by
  unfold cut
  rw [List.find?_append]
  cases xs.find? fun o => o.enclosing = Path.maxNesting <;> rfl

theorem cut_bind (xs : List Opening) (result : Except Fault α) (g : α → Except Fault β) :
    (cut xs result).bind g = cut xs (result.bind g) := by
  unfold cut
  cases xs.find? fun o => o.enclosing = Path.maxNesting <;> rfl

theorem cut_cons_of_ne {o : Opening} (h : o.enclosing ≠ Path.maxNesting) (xs : List Opening)
    (result : Except Fault α) : cut (o :: xs) result = cut xs result := by
  unfold cut
  rw [List.find?_cons_of_neg (by simpa using h)]

theorem cut_of_forall_ne : ∀ {xs : List Opening} {result : Except Fault α},
    (∀ o ∈ xs, o.enclosing ≠ Path.maxNesting) → cut xs result = result
  | [], _, _ => rfl
  | o :: xs, result, h => by
    rw [cut_cons_of_ne (h o List.mem_cons_self)]
    exact cut_of_forall_ne fun o' ho' => h o' (List.mem_cons_of_mem _ ho')

theorem cut_cons_of_eq {o : Opening} (h : o.enclosing = Path.maxNesting) (xs : List Opening)
    (result : Except Fault α) :
    cut (o :: xs) result = .error ⟨.tooDeep, .char o.start '('⟩ := by
  unfold cut
  rw [List.find?_cons_of_pos (by simpa using h)]

end

/-! ### Two readers side by side -/

namespace Counting

variable {α β : Type} {m : Counting α} {f : α → Counting β} {t t' : Tally}

theorem bind_of_ok {a : α} (h : m t = (.ok a, t')) : (m >>= f) t = f a t' := by
  show (fun r : Except Fault α × Tally => ExceptT.bindCont f r.1 r.2) (m t) = f a t'
  rw [h]
  rfl

theorem bind_of_error {fault : Fault} (h : m t = (.error fault, t')) :
    (m >>= f) t = (.error fault, t') := by
  show (fun r : Except Fault α × Tally => ExceptT.bindCont f r.1 r.2) (m t) = _
  rw [h]
  rfl

end Counting

/-- One step of the counting reader from the count `n`, beside a step of the
reader of levels, whose result is `p`: it adds lists to the record that satisfy
`Q`, and if it succeeds, the counter is at `n` again. If the count is within the
limit, then `p` is its result, cut at the limit, and its result itself if it is
a step of the reader with the limit. -/
def Counts {α : Type} (limited : Bool) (Q : Opening → Prop) (n : Nat) (m : Counting α)
    (p : Except Fault α) : Prop :=
  ∀ begun, ∃ result nesting new, m ⟨n, begun⟩ = (result, ⟨nesting, begun ++ new⟩) ∧
    (∀ a, result = .ok a → nesting = n) ∧ (∀ o ∈ new, Q o) ∧
    (n ≤ Path.maxNesting → p = cut new result ∧ (limited = true → result = p))

namespace Counts

variable {α β : Type} {limited : Bool} {Q : Opening → Prop} {n : Nat}

theorem of_except (p : Except Fault α) : Counts limited Q n (ExceptT.mk (Pure.pure p)) p :=
  fun begun => ⟨p, n, [], by rw [List.append_nil]; rfl, fun _ _ => rfl, by simp,
    fun _ => ⟨rfl, fun _ => rfl⟩⟩

theorem pure (a : α) : Counts limited Q n (Pure.pure a) (.ok a) := of_except (.ok a)

theorem throw (fault : Fault) : Counts limited Q n (α := α) (throw fault) (.error fault) :=
  of_except (.error fault)

/-- **One step after the other.** -/
theorem bind {m : Counting α} {f : α → Counting β} {p : Except Fault α} {g : α → Except Fault β}
    (hm : Counts limited Q n m p) (hf : ∀ a, Counts limited Q n (f a) (g a)) :
    Counts limited Q n (m >>= f) (p.bind g) := by
  intro begun
  obtain ⟨result, nesting, new, hrun, hnesting, hnew, hresult⟩ := hm begun
  cases result with
  | error fault =>
    refine ⟨.error fault, nesting, new, Counting.bind_of_error hrun, fun a ha => by simp at ha,
      hnew, fun hn => ?_⟩
    obtain ⟨rfl, hlimited⟩ := hresult hn
    rw [cut_bind]
    exact ⟨rfl, fun h => by rw [← cut_bind, ← hlimited h]; rfl⟩
  | ok a =>
    obtain rfl := hnesting a rfl
    obtain ⟨result', nesting', new', hrun', hnesting', hnew', hresult'⟩ := hf a (begun ++ new)
    refine ⟨result', nesting', new ++ new', ?_, hnesting', ?_, fun hn => ?_⟩
    · rw [Counting.bind_of_ok hrun, hrun', List.append_assoc]
    · exact List.forall_mem_append.2 ⟨hnew, hnew'⟩
    · obtain ⟨rfl, hlimited⟩ := hresult hn
      obtain ⟨hg, hlimited'⟩ := hresult' hn
      rw [cut_bind, cut_append, ← hg]
      exact ⟨rfl, fun h => by rw [hlimited' h, ← cut_bind, ← hlimited h]; rfl⟩

theorem map {m : Counting α} {p : Except Fault α} (hm : Counts limited Q n m p) (f : α → β) :
    Counts limited Q n (do return f (← m)) (p.map f) := by
  have hbind : p.map f = p.bind fun a => .ok (f a) := by cases p <;> rfl
  rw [hbind]
  exact hm.bind fun a => pure (f a)

theorem traverse {s : Scan α} {f : α → Counting β} {g : α → Except Fault β}
    (h : ∀ a ∈ s.items, Counts limited Q n (f a) (g a)) :
    Counts limited Q n (s.traverseCounting f) (s.traverse g) := by
  have hitems : ∀ items : List α, (∀ a ∈ items, Counts limited Q n (f a) (g a)) →
      Counts limited Q n (items.mapM f) (items.mapM g) := by
    intro items
    induction items with
    | nil => exact fun _ => pure []
    | cons a items ih =>
      intro h
      rw [List.mapM_cons, List.mapM_cons]
      refine (h a List.mem_cons_self).bind fun b => ?_
      exact (ih fun c hc => h c (List.mem_cons_of_mem _ hc)).bind fun bs => pure (b :: bs)
  refine (hitems s.items h).bind fun bs => ?_
  cases s.fault with
  | none => exact pure bs
  | some fault => exact throw fault

/-- **A list that is counted.** Within the limit it is read as its arguments are,
one level deeper; at the limit it is refused. -/
theorem guarded {opened : Nat} {inside : List Char} {body : Counting α} {p p' : Except Fault α}
    (hbody : Counts limited Q (n + 1) body p') (hQ : Q ⟨n, opened, inside⟩)
    (hbelow : n < Path.maxNesting → p = p')
    (hlimit : n = Path.maxNesting → p = .error ⟨.tooDeep, .char opened '('⟩) :
    Counts limited Q n (do
      Counting.enter limited opened inside
      let a ← body
      Counting.leave
      return a) p := by
  intro begun
  by_cases hrefused : (limited && Path.maxNesting < n + 1) = true
  · have henter : Counting.enter limited opened inside ⟨n, begun⟩ =
        (.error ⟨.tooDeep, .char opened '('⟩, ⟨n + 1, begun ++ [⟨n, opened, inside⟩]⟩) :=
      if_pos hrefused
    refine ⟨_, _, [⟨n, opened, inside⟩], Counting.bind_of_error henter, fun a ha => by simp at ha,
      by simpa using hQ, fun hle => ?_⟩
    simp only [Bool.and_eq_true, decide_eq_true_eq] at hrefused
    have heq : n = Path.maxNesting := by omega
    rw [cut_cons_of_eq heq, hlimit heq]
    exact ⟨rfl, fun _ => rfl⟩
  · have henter : Counting.enter limited opened inside ⟨n, begun⟩ =
        (.ok (), ⟨n + 1, begun ++ [⟨n, opened, inside⟩]⟩) := if_neg hrefused
    obtain ⟨result, nesting, new, hrun, hnesting, hnew, hresult⟩ :=
      hbody (begun ++ [⟨n, opened, inside⟩])
    -- what is read agrees whether the list is the first beyond the limit or not
    have hcut : n ≤ Path.maxNesting → p = cut (⟨n, opened, inside⟩ :: new) result ∧
        (limited = true → result = p) := by
      intro hle
      by_cases heq : n = Path.maxNesting
      · rw [cut_cons_of_eq heq, hlimit heq]
        refine ⟨rfl, fun h => absurd ?_ hrefused⟩
        rw [h, heq]
        simp
      · have hlt : n < Path.maxNesting := by omega
        rw [cut_cons_of_ne heq, hbelow hlt]
        exact hresult hlt
    have hall : ∀ o ∈ (⟨n, opened, inside⟩ :: new : List Opening), Q o :=
      List.forall_mem_cons.2 ⟨hQ, hnew⟩
    rw [Counting.bind_of_ok henter]
    cases result with
    | error fault =>
      refine ⟨.error fault, nesting, _, ?_, fun a ha => by simp at ha, hall, hcut⟩
      rw [Counting.bind_of_error hrun, List.append_assoc]
      rfl
    | ok a =>
      obtain rfl := hnesting a rfl
      refine ⟨.ok a, n, _, ?_, fun _ _ => rfl, hall, hcut⟩
      rw [Counting.bind_of_ok hrun, List.append_assoc]
      rfl

end Counts

/-! ### The two readers of tags -/

section

variable {limited : Bool} {Q : Opening → Prop} {n : Nat}
  {counting : Nat → List Char → Counting (List Arg)}
  {arguments : Nat → List Char → Except Fault (List Arg)}

theorem Segment.counts_read {s : RawSegment}
    (h : ∀ inside ∈ s.inside, Counts limited Q n (counting s.opened inside)
      (arguments s.opened inside)) :
    Counts limited Q n (readCounting counting s) (read arguments s) := by
  unfold readCounting read
  cases hs : s.inside with
  | none => exact .pure _
  | some inside => exact (h inside hs).map _

/-- The readers of paths go side by side if those of the lists in the path do. -/
theorem Path.counts_read {pos : Nat} {cs : List Char}
    (h : ∀ opened inside, Path.Lists pos cs opened inside →
      Counts limited Q n (counting opened inside) (arguments opened inside)) :
    Counts limited Q n (readCounting counting pos cs) (read arguments pos cs) := by
  unfold Path.Lists at h
  unfold readCounting read
  dsimp only
  cases hd : cs.dropWhile isBlank with
  | nil => exact .throw _
  | cons c rest =>
    rw [hd] at h
    by_cases hc : c = '.'
    · simp only [if_pos hc]
      by_cases hb : rest.all isBlank = true
      · simp only [if_pos hb]
        exact .pure _
      · simp only [if_neg hb]
        exact .throw _
    · simp only [if_neg hc]
      exact (Counts.traverse fun s hs => Segment.counts_read fun inside hi =>
        h s.opened inside ⟨s, hs, rfl, hi⟩).map _

/-- The readers of arguments go side by side if those of the lists in the
argument do. -/
theorem Arg.counts_read {t : Token}
    (h : ∀ opened inside, t.Lists opened inside →
      Counts limited Q n (counting opened inside) (arguments opened inside)) :
    Counts limited Q n (readCounting counting t) (read arguments t) := by
  obtain ⟨start, w⟩ := t
  cases w with
  | quoted mark body => exact .of_except _
  | number m => exact .of_except _
  | list gap inside => exact (h _ inside ⟨rfl, rfl⟩).map _
  | reference name => exact (Path.counts_read h).map _

end

/-- **The lists of a tag**: with `n` lists around it, a list is read beside the
reader that has as many levels left as `n` is below the limit, and the counter
is right wherever a list is begun in it. -/
theorem Arg.counts_readListCounting (limited : Bool) {tag : List Char} :
    ∀ {n opened : Nat} {inside : List Char}, Path.Reaches tag n opened inside →
      Counts limited (fun o => Path.Reaches tag o.enclosing o.start o.inside) n
        (readListCounting limited opened inside)
        (readList (Path.maxNesting - n) opened inside) := by
  intro n opened inside h
  rw [readListCounting_eq]
  have hitems : Counts limited (fun o => Path.Reaches tag o.enclosing o.start o.inside) (n + 1)
      ((Token.scan (opened + 1) inside).traverseCounting
        (readCounting (readListCounting limited)))
      ((Token.scan (opened + 1) inside).traverse
        (read (readList (Path.maxNesting - (n + 1))))) :=
    .traverse fun t ht => counts_read fun opened' inside' hlists =>
      have _hlt : inside'.length < inside.length := Token.Lists.length_lt ht hlists
      counts_readListCounting limited (h.argument ht hlists)
  refine hitems.guarded h (fun hbelow => ?_) (fun hlimit => ?_)
  · have hlevels : Path.maxNesting - n = Path.maxNesting - (n + 1) + 1 := by omega
    rw [hlevels]
    rfl
  · rw [hlimit, Nat.sub_self]
    rfl
termination_by _ _ inside => inside.length

namespace Path

theorem counts_parse (limited : Bool) (tag : String) :
    Counts limited (fun o => Reaches tag.toList o.enclosing o.start o.inside) 0
      (readCounting (Arg.readListCounting limited) 0 tag.toList)
      (read (Arg.readList maxNesting) 0 tag.toList) :=
  counts_read fun _ _ hlists => Arg.counts_readListCounting limited (.segment hlists)

/-- What the counting reader has begun, and what the limit makes of its result. -/
theorem parse_eq_cut (limited : Bool) (tag : String) : ∃ result begun,
    parseCounting limited tag = (result.mapError (Fault.within tag), begun) ∧
      (∀ o ∈ begun, Reaches tag.toList o.enclosing o.start o.inside) ∧
      parse tag = (cut begun result).mapError (Fault.within tag) ∧
      (limited = true → parse tag = result.mapError (Fault.within tag)) := by
  obtain ⟨result, nesting, begun, hrun, -, hbegun, hresult⟩ := counts_parse limited tag []
  obtain ⟨hcut, hlimited⟩ := hresult (Nat.zero_le _)
  refine ⟨result, begun, ?_, hbegun, by rw [parse, hcut], fun h => by rw [parse, hlimited h]⟩
  unfold parseCounting
  rw [hrun]
  rfl

/-- **The limit cuts at the first list beyond it and changes nothing else.** The
reader with the counter reads every tag as `parse` does. Without the limit it
gives the same result if it begins no list beyond the limit. If it begins one,
the tag is not read, and the error is at the parenthesis of the first of them.
With the limit or without, the counter shows at the beginning of every list how
many lists are around it, which are the parentheses that are open there. -/
theorem parse_eq_parseCounting (tag : String) :
    (parseCounting true tag).1 = parse tag ∧
      ((∀ o ∈ (parseCounting false tag).2, o.level ≠ maxNesting + 1) →
        (parseCounting false tag).1 = parse tag) ∧
      (∀ earlier o later, (parseCounting false tag).2 = earlier ++ o :: later →
        (∀ o' ∈ earlier, o'.level ≠ maxNesting + 1) → o.level = maxNesting + 1 →
        parse tag = .error ⟨.tooDeep, .char o.start '(', tag⟩) ∧
      ∀ limited, ∀ o ∈ (parseCounting limited tag).2,
        Reaches tag.toList o.enclosing o.start o.inside ∧
          Stands tag.toList o.start o.enclosing ('(' :: o.inside ++ [')']) := by
  have hlevel : ∀ o : Opening, o.level ≠ maxNesting + 1 ↔ o.enclosing ≠ maxNesting := by
    intro o
    unfold Opening.level
    omega
  refine ⟨?_, fun hwithin => ?_, fun earlier o later hsplit hearlier ho => ?_,
    fun limited o ho => ?_⟩
  · obtain ⟨result, begun, hrun, -, -, hlimited⟩ := parse_eq_cut true tag
    rw [hrun, hlimited rfl]
  · obtain ⟨result, begun, hrun, -, hcut, -⟩ := parse_eq_cut false tag
    rw [hrun] at hwithin ⊢
    rw [hcut, cut_of_forall_ne fun o ho => (hlevel o).1 (hwithin o ho)]
  · obtain ⟨result, begun, hrun, -, hcut, -⟩ := parse_eq_cut false tag
    rw [hrun] at hsplit
    have heq : o.enclosing = maxNesting := Nat.succ.inj ho
    rw [hcut, show begun = earlier ++ o :: later from hsplit, cut_append,
      cut_of_forall_ne fun o' ho' => (hlevel o').1 (hearlier o' ho'), cut_cons_of_eq heq]
    rfl
  · obtain ⟨result, begun, hrun, hreaches, -, -⟩ := parse_eq_cut limited tag
    rw [hrun] at ho
    exact ⟨hreaches o ho, (hreaches o ho).stands.1⟩

example : (parseCounting true "f(g()).h()").2.map Opening.level = [1, 2, 1] := by cbv

end Path

end TagScope
