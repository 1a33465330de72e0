/-
# How much room a path needs

While a path is resolved, a path among its arguments is resolved inside of it, and so on to
the innermost argument list; a callable is called when its arguments are there, inside of
the path that it belongs to. So at most one path for each level of nesting is in progress,
and the outermost one, and one call. As long as callables make no lookups, nothing else is
(`Lookup.fits_resolve`): how long a path is, or how many arguments it has, does not count.
The deepest tag that can be read takes 34 of the 64 that are allowed.

A lookup fits into some room if it ends wherever there is so much room below the limit and
none of its depth checks fails (`Lookup.Fits`). Putting lookups together takes no more room
than each of them, and every guard one more.

That no depth check fails does not mean that the lookup cannot end with the error of one.
An error of a lookup that a callable fails with is passed on as it is, and a callable may
have built it without any lookup (`Stack.tryResolve_made_up`).

Key definitions: `Lookup.Fits`, `FailsOnly`, `Host.MakesNoLookups`,
`Host.MakesUpNoDepthError`.
Key theorems: `Arg.nesting_le_of_mem_pathsAll`, `Lookup.fits_resolve`,
`Stack.tryResolve_of_room`, `Stack.tryResolve_made_up`.
-/
import TagScope.Proofs.Alike
import TagScope.Proofs.Complete
import TagScope.Proofs.Encounters
import TagScope.Proofs.Limit

namespace TagScope

variable {σ α β : Type}

/-! ### Nesting of the parts -/

mutual

theorem Arg.nesting_le_of_mem_paths {p : Path} : ∀ {a : Arg}, p ∈ a.paths → p.nesting ≤ a.nesting
  | .literal _, h => by simp [Arg.paths] at h
  | .path q, h => by
    rw [Arg.paths, List.mem_singleton] at h
    rw [h, Arg.nesting]
  | .list items, h => by
    rw [Arg.nesting]
    exact Nat.le_succ_of_le (Arg.nesting_le_of_mem_pathsAll h)

theorem Arg.nesting_le_of_mem_pathsAll {p : Path} : ∀ {as : List Arg}, p ∈ Arg.pathsAll as →
    p.nesting ≤ Arg.nestingAll as
  | [], h => by simp [Arg.pathsAll] at h
  | a :: as, h => by
    rw [Arg.pathsAll, List.mem_append] at h
    rw [Arg.nestingAll]
    rcases h with h | h
    · exact Nat.le_trans (Arg.nesting_le_of_mem_paths h) (Nat.le_max_left ..)
    · exact Nat.le_trans (Arg.nesting_le_of_mem_pathsAll h) (Nat.le_max_right ..)

end

namespace Segment

theorem nesting_le_of_mem {segment : Segment} : ∀ {segments : List Segment}, segment ∈ segments →
    segment.nesting ≤ nestingAll segments
  | first :: rest, h => by
    rw [nestingAll]
    rcases List.mem_cons.1 h with rfl | h
    · exact Nat.le_max_left ..
    · exact Nat.le_trans (nesting_le_of_mem h) (Nat.le_max_right ..)

theorem nesting_lt_of_mem_pathsAll {segment : Segment} {segments : List Segment} {p : Path}
    (hs : segment ∈ segments) (hp : p ∈ Arg.pathsAll segment.args) :
    p.nesting < (Path.segments segments).nesting := by
  have hsegment : p.nesting < segment.nesting := by
    cases segment with
    | bare name => simp [args, Arg.pathsAll] at hp
    | call name as =>
      rw [nesting]
      exact Nat.lt_succ_of_le (Arg.nesting_le_of_mem_pathsAll hp)
  exact Nat.lt_of_lt_of_le hsegment (nesting_le_of_mem hs)

end Segment

/-! ### Lookups that fit -/

/-- Whether a result is no error but one of these. -/
def FailsOnly (errors : LookupError → Prop) (r : Except LookupError α) : Prop :=
  ∀ e, r = .error e → errors e

theorem failsOnly_ok {errors : LookupError → Prop} {a : α} : FailsOnly errors (.ok a) :=
  fun _ h => by simp at h

namespace Lookup

/-- Where `room` more activities may be in progress below the limit, the lookup ends with
such a result, none of its depth checks fails, and the count is as it was. -/
def Fits (limit room : Nat) (P : Except LookupError α → Prop) (m : Lookup σ α) : Prop :=
  ∀ s, s.depth + room ≤ limit →
    ∃ r t, m.run s = some (r, t) ∧ t.depth = s.depth ∧ t.refusals = s.refusals ∧ P r

namespace Fits

variable {limit room : Nat} {P : Except LookupError α → Prop} {Q : Except LookupError β → Prop}
  {m : Lookup σ α}

theorem pure {a : α} (h : P (.ok a)) : Fits limit room P (Pure.pure a : Lookup σ α) :=
  fun s _ => ⟨.ok a, s, rfl, rfl, rfl, h⟩

theorem bind {f : α → Lookup σ β} (hm : Fits limit room P m)
    (hok : ∀ a, P (.ok a) → Fits limit room Q (f a)) (herror : ∀ e, P (.error e) → Q (.error e)) :
    Fits limit room Q (m >>= f) := by
  intro s hs
  obtain ⟨r, t, hrun, hdepth, hrefusals, hr⟩ := hm s hs
  cases r with
  | error e => exact ⟨_, t, run_bind_of_error hrun f, hdepth, hrefusals, herror e hr⟩
  | ok a =>
    obtain ⟨r', t', hrun', hdepth', hrefusals', hr'⟩ := hok a hr t (by rwa [hdepth])
    refine ⟨r', t', ?_, hdepth'.trans hdepth, hrefusals'.trans hrefusals, hr'⟩
    rw [run_bind_of_ok hrun, hrun']

theorem mono {room' : Nat} {P' : Except LookupError α → Prop} (h : Fits limit room P m)
    (hroom : room ≤ room') (hP : ∀ r, P r → P' r) : Fits limit room' P' m := by
  intro s hs
  obtain ⟨r, t, hrun, hdepth, hrefusals, hr⟩ := h s (by omega)
  exact ⟨r, t, hrun, hdepth, hrefusals, hP r hr⟩

/-- **A guard takes one more.** -/
theorem guarded {limit : UInt64} (h : Fits limit.toNat room P m) :
    Fits limit.toNat (room + 1) P (Lookup.guarded limit m) := by
  intro s hs
  have henter : s.enter.depth + room ≤ limit.toNat := by
    show s.depth + 1 + room ≤ limit.toNat
    omega
  obtain ⟨r, t, hrun, hdepth, hrefusals, hr⟩ := h _ henter
  have hl : s.depth < limit.toNat := by omega
  refine ⟨r, t.leave, run_guarded_eq_some.2 (Or.inl ⟨hl, r, t, hrun, rfl⟩), ?_, ?_, hr⟩
  · show t.depth - 1 = s.depth
    rw [hdepth]
    exact Nat.add_sub_cancel ..
  · simpa using hrefusals

theorem tracked (h : Fits limit room P m) (activity : Activity) :
    Fits limit room P (Lookup.tracked activity m) := by
  intro s hs
  obtain ⟨r, t, hrun, hdepth, hrefusals, hr⟩ := h (s.began activity) hs
  refine ⟨r, _, run_tracked_eq_some.2 ⟨r, t, hrun, rfl⟩, hdepth, ?_, hr⟩
  simpa using hrefusals

theorem bindOnly {errors : LookupError → Prop} {f : α → Lookup σ β}
    (hm : Fits limit room (FailsOnly errors) m)
    (hf : ∀ a, Fits limit room (FailsOnly errors) (f a)) :
    Fits limit room (FailsOnly errors) (m >>= f) :=
  hm.bind (fun a _ => hf a) fun e he _ heq => Except.error.inj heq ▸ he e rfl

end Fits

section

variable {limit room : Nat} {errors : LookupError → Prop}
  {resolve : Path → Lookup σ (Option Value)}

mutual

theorem fits_evaluate : ∀ a : Arg,
    (∀ p ∈ a.paths, Fits limit room (FailsOnly errors) (resolve p)) →
    Fits limit room (FailsOnly errors) (evaluate resolve a)
  | .literal v, _ => .pure failsOnly_ok
  | .path p, h => (h p (by simp [Arg.paths])).bindOnly fun _ => .pure failsOnly_ok
  | .list items, h => (fits_evaluateAll items h).bindOnly fun _ => .pure failsOnly_ok

theorem fits_evaluateAll : ∀ as : List Arg,
    (∀ p ∈ Arg.pathsAll as, Fits limit room (FailsOnly errors) (resolve p)) →
    Fits limit room (FailsOnly errors) (evaluateAll resolve as)
  | [], _ => .pure failsOnly_ok
  | a :: as, h => by
    rw [Arg.pathsAll, List.forall_mem_append] at h
    rw [evaluateAll]
    refine (fits_evaluate a h.1).bindOnly fun _ => ?_
    exact (fits_evaluateAll as h.2).bindOnly fun _ => .pure failsOnly_ok

end

variable {host : Host σ} {stack : Stack}

theorem fits_descend {answer : Stack → Query → Lookup σ (Option Value)}
    (hfetch : ∀ id args found,
      Fits limit room (FailsOnly errors) (fetch host answer stack id args found)) :
    ∀ (segments : List Segment) (scopes : List Value),
      (∀ segment ∈ segments,
        Fits limit room (FailsOnly errors) (arguments answer stack segment)) →
      Fits limit room (FailsOnly errors) (descend host answer stack segments scopes)
  | [], _, _ => .pure failsOnly_ok
  | segment :: rest, scopes, hargs => by
    obtain ⟨hfirst, hrest⟩ := List.forall_mem_cons.1 hargs
    rw [descend]
    refine hfirst.bindOnly fun args => (hfetch segment.name args _).bindOnly fun found => ?_
    cases found with
    | some v => exact fits_descend hfetch rest [v] hrest
    | none => exact .pure failsOnly_ok

/-- To resolve a path takes one more than to follow it. -/
theorem fits_resolve_of_follow {P : Except LookupError (Option Value) → Prop} {p : Path}
    (h : Fits stack.maxDepth.toNat room P (follow host (whole host) stack p)) :
    Fits stack.maxDepth.toNat (room + 1) P (whole host stack (.resolve p)) := by
  rw [whole_eq]
  exact (h.tracked _).guarded.tracked _

/-- **A path takes as much room as it nests**, one more for itself and one for a callable. -/
theorem fits_resolve (hfetch : ∀ id args found, Fits stack.maxDepth.toNat 1 (FailsOnly errors)
      (fetch host (whole host) stack id args found)) : ∀ p : Path,
    Fits stack.maxDepth.toNat (p.nesting + 2) (FailsOnly errors) (whole host stack (.resolve p))
  | .current => fits_resolve_of_follow (.pure failsOnly_ok)
  | .segments [] => fits_resolve_of_follow (.pure failsOnly_ok)
  | .segments (first :: rest) => by
    refine fits_resolve_of_follow ?_
    rw [follow_eq_descend host (whole host) stack (List.cons_ne_nil first rest)]
    refine fits_descend (fun id args found => ?_) _ _ fun segment hsegment => ?_
    · exact (hfetch id args found).mono (Nat.le_add_left ..) fun _ h => h
    · refine fits_evaluateAll segment.args fun p hp => ?_
      -- the arguments of the segment are one level further down
      have hlt := Segment.nesting_lt_of_mem_pathsAll hsegment hp
      exact (fits_resolve hfetch p).mono (by omega) fun _ h => h
termination_by p => p.nesting

end

end Lookup

/-! ### Callables that make no lookups -/

/-- Whether an error is another one than that of a depth check. -/
def LookupError.NotOfDepth (e : LookupError) : Prop := ∀ limit, e ≠ .depthExceeded limit

namespace Routine

/-- Whether a routine makes no lookups: it asks nothing. -/
def MakesNoLookups : Routine σ → Prop
  | .done _ | .fail _ => True
  | .ask _ _ _ => False
  | .build _ next => ∀ v, MakesNoLookups (next v)
  | .depth next => ∀ n, MakesNoLookups (next n)
  | .read next => ∀ state, MakesNoLookups (next state)
  | .write _ next => MakesNoLookups next

/-- Whether a routine can end with this failure. -/
def CanFail (f : Failure) : Routine σ → Prop
  | .done _ => False
  | .fail g => g = f
  | .ask _ _ next => ∃ answer, CanFail f (next answer)
  | .build _ next => ∃ v, CanFail f (next v)
  | .depth next => ∃ n, CanFail f (next n)
  | .read next => ∃ state, CanFail f (next state)
  | .write _ next => CanFail f next

theorem run_of_makesNoLookups (answer : Stack → Query → Lookup σ (Option Value)) :
    ∀ (routine : Routine σ), routine.MakesNoLookups → ∀ s : Session σ,
      ∃ outcome t, routine.run answer s = some (outcome, t) ∧ t.depth = s.depth ∧
        t.refusals = s.refusals ∧ ∀ f, outcome = .error f → routine.CanFail f
  | .done v, _, s => ⟨.ok v, s, rfl, rfl, rfl, by simp⟩
  | .fail f, _, s => ⟨.error f, s, rfl, rfl, rfl, fun g e => Except.error.inj e⟩
  | .ask _ _ _, h, _ => h.elim
  | .build items next, h, s => by
    let v := Value.list s.nextIdentity items
    obtain ⟨outcome, t, hrun, hdepth, hrefusals, hfail⟩ := run_of_makesNoLookups answer (next v)
      (h v) { s with nextIdentity := s.nextIdentity + 1 }
    exact ⟨outcome, t, hrun, hdepth, hrefusals, fun f hf => ⟨v, hfail f hf⟩⟩
  | .depth next, h, s => by
    obtain ⟨outcome, t, hrun, hdepth, hrefusals, hfail⟩ :=
      run_of_makesNoLookups answer (next s.depth) (h _) s
    exact ⟨outcome, t, hrun, hdepth, hrefusals, fun f hf => ⟨s.depth, hfail f hf⟩⟩
  | .read next, h, s => by
    obtain ⟨outcome, t, hrun, hdepth, hrefusals, hfail⟩ :=
      run_of_makesNoLookups answer (next s.state) (h _) s
    exact ⟨outcome, t, hrun, hdepth, hrefusals, fun f hf => ⟨s.state, hfail f hf⟩⟩
  | .write state next, h, s => run_of_makesNoLookups answer next h { s with state }

end Routine

namespace Host

/-- Whether no callable makes lookups. -/
def MakesNoLookups (host : Host σ) : Prop :=
  ∀ r member values stack, (host.call r member values stack).MakesNoLookups

/-- Whether no callable fails with the error of a depth check. Without lookups it does not get
one and would have to make it up. -/
def MakesUpNoDepthError (host : Host σ) : Prop :=
  ∀ r member values stack limit,
    ¬ (host.call r member values stack).CanFail (.lookup (.depthExceeded limit))

/-- What a callable without lookups may raise: the error of a depth check only if one is made
up. -/
def MayRaise (host : Host σ) (e : LookupError) : Prop :=
  host.MakesUpNoDepthError → e.NotOfDepth

end Host

theorem Failure.notOfDepth_escape {f : Failure} (h : ∀ limit, f ≠ .lookup (.depthExceeded limit))
    (member : String) : (f.escape member).NotOfDepth := by
  intro limit
  cases f with
  | lookup e => exact fun he => h limit (congrArg Failure.lookup he)
  | plain | malformed => simp [escape]

theorem Lookup.fits_fetch {host : Host σ} (hh : host.MakesNoLookups) (stack : Stack) (id : String)
    (args : List Passed) : ∀ found : Found,
    Fits stack.maxDepth.toNat 1 (FailsOnly host.MayRaise)
      (fetch host (whole host) stack id args found)
  | .nothing => .pure failsOnly_ok
  | .stored _ => .pure failsOnly_ok
  | .callable r => by
    refine Fits.guarded (Fits.bindOnly ?_ fun _ => .pure failsOnly_ok)
    intro s _
    obtain ⟨values, u, hreceive, hdepth, hrefusals⟩ : ∃ values u, (receive args).run s =
        some (.ok values, u) ∧ u.depth = s.depth ∧ u.refusals = s.refusals := ⟨_, _, rfl, rfl, rfl⟩
    obtain ⟨outcome, t, hrun, hdepth', hrefusals', houtcome⟩ :=
      (host.call r id values stack).run_of_makesNoLookups (whole host) (hh r id values stack)
        (u.began (.call stack id values))
    refine ⟨outcome.mapError (·.escape id), t.ended (.call stack id values), ?_,
      hdepth'.trans hdepth, ?_, ?_⟩
    · rw [invoke, run_bind_of_ok hreceive, run_call _ _ _ hrun]
    · simp [hrefusals', hrefusals]
    · intro e he
      cases outcome with
      | ok v => simp [Except.mapError] at he
      | error f =>
        obtain rfl : f.escape id = e := Except.error.inj he
        refine fun hmade => Failure.notOfDepth_escape (fun limit hf => ?_) id
        exact hmade r id values stack limit (hf ▸ houtcome f rfl)

/-! ### Paths and tags -/

namespace Stack

variable {host : Host σ}

/-- **The syntax of a path does not exhaust the limit.** Where callables make no lookups and
there is room for as many activities as argument lists nest in the path and two more, no
depth check fails, and that is no error either, unless a callable makes one up. So the limit
that stacks have is enough for every tag that can be read. -/
theorem tryResolve_of_room (hh : host.MakesNoLookups) :
    (∀ (stack : Stack) (p : Path) (s : Session σ),
      s.depth + (p.nesting + 2) ≤ stack.maxDepth.toNat →
      (stack.tryResolve host p s).2.refusals = s.refusals ∧
      (host.MakesUpNoDepthError → ∀ limit,
        (stack.tryResolve host p s).1 ≠ .error (.depthExceeded limit) ∧
        (stack.resolve host p s).1 ≠ .error (.depthExceeded limit))) ∧
    ∀ (frames : List Value) (tag : String) (p : Path) (s : Session σ),
      Path.parse tag = .ok p → s.depth = 0 →
      (tryLookup host { frames } tag s).2.refusals = s.refusals ∧
      (host.MakesUpNoDepthError → ∀ limit,
        (tryLookup host { frames } tag s).1 ≠ .error (.depthExceeded limit) ∧
        (lookup host { frames } tag s).1 ≠ .error (.depthExceeded limit)) := by
  have hpath : ∀ (stack : Stack) (p : Path) (s : Session σ),
      s.depth + (p.nesting + 2) ≤ stack.maxDepth.toNat →
      (stack.tryResolve host p s).2.refusals = s.refusals ∧
      (host.MakesUpNoDepthError → ∀ limit,
        (stack.tryResolve host p s).1 ≠ .error (.depthExceeded limit) ∧
        (stack.resolve host p s).1 ≠ .error (.depthExceeded limit)) := by
    intro stack p s hroom
    obtain ⟨r, t, hrun, -, hrefusals, hr⟩ :=
      Lookup.fits_resolve (Lookup.fits_fetch hh stack) p s hroom
    have hresolve : stack.tryResolve host p s = (r, t) := Option.some.inj hrun
    rw [resolve, hresolve]
    refine ⟨hrefusals, fun hmade limit => ⟨fun h => hr _ h hmade limit rfl, fun h => ?_⟩⟩
    exact hr _ (orAbsent_eq_error_iff.1 h) hmade limit rfl
  refine ⟨hpath, fun frames tag p s hparse hs => ?_⟩
  have hnesting : p.nesting ≤ Path.maxNesting := (Path.tagSpelling_of_parse hparse).2
  have hroom : s.depth + (p.nesting + 2) ≤ (64 : UInt64).toNat := by
    have hmax : Path.maxNesting = 32 := rfl
    have hlimit : (64 : UInt64).toNat = 64 := rfl
    omega
  have htag := hpath { frames } p s hroom
  unfold lookup tryLookup
  rw [hparse]
  exact htag

end Stack

/-- A host whose callables make no lookups, but all fail with the error of a depth check. -/
def Host.pretending : Host Unit where
  call _ _ _ _ := .fail (.lookup (.depthExceeded 7))

namespace Stack

/-- A stack with a callable `f`, on which so many activities may be in progress. -/
def tight (limit : UInt64) : Stack := ⟨[.record (.withCallable "f")], limit⟩

/-- **The error of a depth check may be made up**, however much room there is. -/
theorem tryResolve_made_up : ¬ ∀ host : Host Unit, host.MakesNoLookups →
    ∀ (stack : Stack) (p : Path) (s : Session Unit),
      s.depth + (p.nesting + 2) ≤ stack.maxDepth.toNat →
      ∀ limit, (stack.tryResolve host p s).1 ≠ .error (.depthExceeded limit) := by
  intro h
  have hlookups : Host.pretending.MakesNoLookups := fun _ _ _ _ => trivial
  exact h Host.pretending hlookups (tight 64) (.ofName "f") { state := () } (by decide) 7 rfl

end Stack

/-- A call of `f` in a call of `f` in a call of `f`, the innermost without parentheses. -/
def Path.threefold : Path :=
  .segments [.call "f" [.path (.segments [.call "f" [.path (.ofName "f")]])]]

theorem Host.silent_makesNoLookups : silent.MakesNoLookups := fun _ _ _ _ => trivial

theorem Host.silent_makesUpNoDepthError : silent.MakesUpNoDepthError := fun _ _ _ _ _ h => h

namespace Stack

/-- Four are enough for the threefold call. -/
theorem tryResolve_of_room_threefold :
    (∀ limit, ((tight 4).tryResolve Host.silent .threefold { state := () }).1 ≠
      .error (.depthExceeded limit)) ∧
    ((tight 64).tryLookup Host.silent "f(f(f))" { state := () }).2.refusals = [] := by
  have hparse : Path.parse "f(f(f))" = .ok .threefold := by
    have hname : IsName ['f'] := ⟨by decide, List.all_eq_true.1 (by decide)⟩
    have hargument {text : List Char} {s : Segment} (h : s.Spelling text) (hlead : s.CanLead) :
        Arg.ListSpelling ([] ++ text ++ []) [.path (.segments [s])] :=
      .some nofun (.reference (.segments (.last h)) fun t ht => Option.some.inj ht ▸ hlead)
        (.last nofun)
    have hbare := hargument (.bare hname) ⟨⟨'f', [], rfl, by decide⟩, by decide⟩
    have hcall := hargument (.call hname hbare) ⟨⟨'f', [], rfl, by decide⟩, by decide⟩
    have htag : Path.TagSpelling "f(f(f))".toList .threefold :=
      ⟨[], _, [], rfl, nofun, nofun, .segments (.last (.call hname hcall))⟩
    exact Path.parse_of_tagSpelling htag (by decide)
  obtain ⟨hpaths, htags⟩ := tryResolve_of_room Host.silent_makesNoLookups
  obtain ⟨-, hfour⟩ := hpaths (tight 4) .threefold { state := () } (by decide)
  have herrors := hfour Host.silent_makesUpNoDepthError
  obtain ⟨hfresh, -⟩ := htags _ "f(f(f))" .threefold { state := () } hparse rfl
  exact ⟨fun limit => (herrors limit).1, hfresh⟩

/-- They are also needed: three are in progress when the innermost `f` is to be called. -/
example : ((tight 3).tryResolve Host.silent .threefold { state := () }).1 =
    .error (.depthExceeded 3) := rfl

end Stack
end TagScope
