/-
# What a lookup comes to

A path is followed segment by segment. Each segment resolves the paths among its
arguments, in the order in which they are written, and then a callable is called
or what is stored is taken. So there are two things that a lookup comes to and
that may fail: a path among arguments, and a callable (`Encounter`). Which ones it
comes to, and in which session, is told by `Query.Meets`.

What a lookup comes to decides over its errors, both ways. If it comes to something
that fails, it fails with the same error, and nothing happens any more but what was
begun before is ended (`Query.Meets.query_eq`). And an error other than that of the
limit is the error of something that the lookup came to (`Stack.exists_meets`).

Key definitions: `Arg.paths`, `Lookup.resolveAll`, `Lookup.descend`, `Encounter`,
`Query.Meets`, `Session.Unwound`.
Key theorems: `Lookup.evaluateAll_eq`, `Lookup.follow_eq_descend`, `Query.Meets.query_eq`,
`Stack.exists_meets`.
-/
import TagScope.Proofs.Narrowing

namespace TagScope

variable {σ α β : Type}

/-! ### Paths among arguments -/

mutual

/-- The paths among the parts of an argument, in the order in which they are
resolved. -/
def Arg.paths : Arg → List Path
  | .literal _ => []
  | .path p => [p]
  | .list items => Arg.pathsAll items
termination_by structural a => a

/-- The paths among arguments. -/
def Arg.pathsAll : List Arg → List Path
  | [] => []
  | a :: as => Arg.paths a ++ Arg.pathsAll as
termination_by structural as => as

end

namespace Lookup

theorem run_pure (a : α) (s : Session σ) : (pure a : Lookup σ α).run s = some (.ok a, s) := rfl

/-- Resolves paths one after the other. -/
def resolveAll (resolve : Path → Lookup σ (Option Value)) : List Path → Lookup σ PUnit
  | [] => return ⟨⟩
  | p :: ps => do
    let _ ← resolve p
    resolveAll resolve ps

variable {resolve : Path → Lookup σ (Option Value)}

theorem resolveAll_append (ps qs : List Path) : resolveAll resolve (ps ++ qs) =
    resolveAll resolve ps >>= fun _ => resolveAll resolve qs := by
  induction ps with
  | nil => rw [List.nil_append, resolveAll, pure_bind]
  | cons p ps ih => rw [List.cons_append, resolveAll, resolveAll, bind_assoc, ih]

mutual

theorem evaluate_eq : ∀ a : Arg,
    (evaluate resolve a >>= fun _ => pure ⟨⟩) = resolveAll resolve a.paths
  | .literal v => by rw [evaluate, pure_bind, Arg.paths, resolveAll]
  | .path p => by
    rw [evaluate, bind_assoc, Arg.paths, resolveAll, resolveAll]
    rfl
  | .list items => by
    have ih := evaluateAll_eq items
    rw [evaluate, bind_assoc, Arg.paths, ← ih]
    rfl

/-- **Evaluating arguments resolves their paths** one after the other. -/
theorem evaluateAll_eq : ∀ as : List Arg,
    (evaluateAll resolve as >>= fun _ => pure ⟨⟩) = resolveAll resolve (Arg.pathsAll as)
  | [] => by rw [evaluateAll, pure_bind, Arg.pathsAll, resolveAll]
  | a :: as => by
    have ih := evaluate_eq a
    have ih' := evaluateAll_eq as
    rw [evaluateAll, Arg.pathsAll, resolveAll_append, ← ih, ← ih']
    simp only [bind_assoc, pure_bind]

end

theorem resolveAll_eq_error {e : LookupError} {t : Session σ} : ∀ {ps : List Path}
    {s : Session σ}, (resolveAll resolve ps).run s = some (.error e, t) ↔
      ∃ before p after u, ps = before ++ p :: after ∧
        (resolveAll resolve before).run s = some (.ok ⟨⟩, u) ∧
        (resolve p).run u = some (.error e, t)
  | [], s => by
    constructor
    · intro h
      rw [resolveAll, run_pure] at h
      simp at h
    · rintro ⟨before, p, after, u, h, -⟩
      simp at h
  | q :: qs, s => by
    have ih := @resolveAll_eq_error e t qs
    constructor
    · intro h
      rw [resolveAll] at h
      rcases run_bind_eq_some.1 h with ⟨found, u, hq, hqs⟩ | ⟨e', hq, he⟩
      · obtain ⟨before, p, after, v, rfl, hbefore, hp⟩ := ih.1 hqs
        refine ⟨q :: before, p, after, v, rfl, ?_, hp⟩
        rw [resolveAll, run_bind_of_ok hq, hbefore]
      · obtain rfl := Except.error.inj he
        exact ⟨[], q, qs, s, rfl, rfl, hq⟩
    · rintro ⟨before, p, after, u, hps, hbefore, hp⟩
      rw [resolveAll]
      cases before with
      | nil =>
        obtain ⟨rfl, rfl⟩ := List.cons.inj hps
        obtain rfl : s = u := congrArg Prod.snd (Option.some.inj hbefore)
        exact run_bind_of_error hp _
      | cons q' before =>
        obtain ⟨rfl, rfl⟩ := List.cons.inj hps
        rw [resolveAll] at hbefore
        rcases run_bind_eq_some.1 hbefore with ⟨found, v, hq, hrest⟩ | ⟨_, -, herror⟩
        · rw [run_bind_of_ok hq]
          exact ih.2 ⟨before, p, after, u, rfl, hrest, hp⟩
        · simp at herror

theorem evaluateAll_eq_error {as : List Arg} {e : LookupError} {s t : Session σ} :
    (evaluateAll resolve as).run s = some (.error e, t) ↔
      (resolveAll resolve (Arg.pathsAll as)).run s = some (.error e, t) := by
  rw [← evaluateAll_eq]
  constructor
  · exact fun h => run_bind_of_error h _
  · intro h
    rcases run_bind_eq_some.1 h with ⟨_, _, -, hpure⟩ | ⟨e', h, he⟩
    · rw [run_pure] at hpure
      simp at hpure
    · obtain rfl := Except.error.inj he
      exact h

/-! ### One segment after the other -/

section

variable (host : Host σ) (answer : Stack → Query → Lookup σ (Option Value)) (stack : Stack)

/-- What segments lead to in scopes: the first is looked up in all of them, each
later one in what has been reached. -/
def descend : List Segment → List Value → Lookup σ (Option Value)
  | [], scopes => return scopes.head?
  | segment :: rest, scopes => do
    let args ← arguments answer stack segment
    match ← fetch host answer stack segment.name args (Found.first segment.name scopes) with
    | some v => descend rest [v]
    | none => return none

theorem Found.first_singleton (id : String) (v : Value) : Found.first id [v] = v.found id := by
  rw [Found.first]
  cases v.found id <;> rfl

theorem narrow_eq_descend : ∀ (segments : List Segment) (v : Value),
    narrow host answer stack v segments = descend host answer stack segments [v]
  | [], v => rfl
  | segment :: rest, v => by
    rw [narrow, descend]
    refine bind_congr fun args => ?_
    rw [member_eq_fetch, Found.first_singleton]
    refine bind_congr fun found => ?_
    cases found with
    | some w => exact narrow_eq_descend rest w
    | none => rfl

/-- **A path leads where its segments do** in the scopes of the stack. -/
theorem follow_eq_descend {segments : List Segment} (hs : segments ≠ []) :
    follow host answer stack (.segments segments) =
      descend host answer stack segments stack.frames := by
  match segments with
  | segment :: rest =>
    rw [follow, descend]
    refine bind_congr fun args => ?_
    rw [findIn_eq_fetch]
    refine bind_congr fun found => ?_
    cases found with
    | some v => exact narrow_eq_descend host answer stack rest v
    | none => rfl

end

end Lookup

/-! ### Encounters -/

/-- What a lookup comes to and what may fail, with the session in which it comes
to it. -/
inductive Encounter (σ : Type) where
  /-- A path among arguments. -/
  | path (p : Path) (s : Session σ)
  /-- A callable with its arguments. -/
  | call (r : Record) (member : String) (values : List Value) (s : Session σ)

namespace Encounter

/-- The session in which a lookup comes to it. -/
def session : Encounter σ → Session σ
  | .path _ s => s
  | .call _ _ _ s => s

/-- What is met on the stack fails with this error, and leaves this session. -/
inductive Fails (host : Host σ) (stack : Stack) : Encounter σ → LookupError → Session σ → Prop where
  | path {p : Path} {s t : Session σ} {e : LookupError} :
    stack.query host (.resolve p) s = (.error e, t) → Fails host stack (.path p s) e t
  | call {r : Record} {member : String} {values : List Value} {s t : Session σ}
    {failure : Failure} :
    (host.call r member values stack).run (Lookup.whole host)
      (s.began (.call stack member values)) = some (.error failure, t) →
    Fails host stack (.call r member values s) (failure.escape member) t

end Encounter

/-- What segments come to in scopes. -/
inductive Segment.Meets (host : Host σ) (stack : Stack) :
    List Segment → List Value → Session σ → Encounter σ → Prop where
  /-- A path among the arguments of the first segment, once those before it have
  been resolved. -/
  | argument {segment : Segment} {rest : List Segment} {scopes : List Value} {s t : Session σ}
    {before after : List Path} {p : Path} :
    Arg.pathsAll segment.args = before ++ p :: after →
    (Lookup.resolveAll (fun q => Lookup.whole host stack (.resolve q)) before).run s =
      some (.ok ⟨⟩, t) →
    Segment.Meets host stack (segment :: rest) scopes s (.path p t)
  /-- The callable that the first segment leads to. -/
  | callable {segment : Segment} {rest : List Segment} {scopes : List Value} {s s' t : Session σ}
    {args : List Passed} {r : Record} {values : List Value} :
    (Lookup.arguments (Lookup.whole host) stack segment).run s = some (.ok args, s') →
    Found.first segment.name scopes = .callable r → s'.depth < stack.maxDepth.toNat →
    (Lookup.receive args).run s'.enter = some (.ok values, t) →
    Segment.Meets host stack (segment :: rest) scopes s (.call r segment.name values t)
  /-- What the later segments come to, in what the first has reached. -/
  | later {segment : Segment} {rest : List Segment} {scopes : List Value} {s s' t : Session σ}
    {args : List Passed} {v : Value} {x : Encounter σ} :
    (Lookup.arguments (Lookup.whole host) stack segment).run s = some (.ok args, s') →
    (Lookup.fetch host (Lookup.whole host) stack segment.name args
      (Found.first segment.name scopes)).run s' = some (.ok (some v), t) →
    Segment.Meets host stack rest [v] t x → Segment.Meets host stack (segment :: rest) scopes s x

/-- What a lookup comes to that begins in this session. -/
inductive Query.Meets (host : Host σ) (stack : Stack) :
    Query → Session σ → Encounter σ → Prop where
  | find {id : String} {args : List Value} {r : Record} {s : Session σ} :
    Found.first id stack.frames = .callable r → s.depth < stack.maxDepth.toNat →
    Query.Meets host stack (.find id args) s
      (.call r id args (s.began (.question stack (some id))).enter)
  | resolve {segments : List Segment} {s : Session σ} {x : Encounter σ} :
    s.depth < stack.maxDepth.toNat →
    Segment.Meets host stack segments stack.frames (s.opened stack) x →
    Query.Meets host stack (.resolve (.segments segments)) s x

/-! ### Ends of what was begun -/

/-- Whether an event ends what has been begun before. -/
def Event.Ends : Event → Prop
  | .ended _ _ | .left _ => True
  | _ => False

/-- From the first session to the second nothing has happened but that what was
begun before has been ended. -/
structure Session.Unwound (s t : Session σ) : Prop where
  state : t.state = s.state
  nextIdentity : t.nextIdentity = s.nextIdentity
  journal : ∃ events, t.journal = events ++ s.journal ∧ ∀ e ∈ events, e.Ends

namespace Session.Unwound

variable {s t : Session σ}

theorem refl (s : Session σ) : Unwound s s := ⟨rfl, rfl, [], rfl, by simp⟩

theorem note (h : Unwound s t) {e : Event} (he : e.Ends) : Unwound s (t.note e) := by
  obtain ⟨hstate, hidentity, events, hj, hends⟩ := h
  refine ⟨hstate, hidentity, e :: events, ?_, List.forall_mem_cons.2 ⟨he, hends⟩⟩
  rw [List.cons_append, ← hj]
  rfl

theorem leave (h : Unwound s t) : Unwound s t.leave := by
  have hdepth : Unwound s { t with depth := t.depth - 1 } := ⟨h.state, h.nextIdentity, h.journal⟩
  exact hdepth.note (e := .left (t.depth - 1)) trivial

theorem ended (h : Unwound s t) (activity : Activity) : Unwound s (t.ended activity) :=
  h.note trivial

end Session.Unwound

/-! ### Errors of what is met -/

namespace Lookup

section

variable {host : Host σ} {stack : Stack} {e : LookupError}

/-- A callable that fails makes its call fail, and the call is left. -/
theorem run_fetch_of_fails {id : String} {args : List Passed} {r : Record} {values : List Value}
    {s t t' : Session σ} (hl : s.depth < stack.maxDepth.toNat)
    (hreceive : (receive args).run s.enter = some (.ok values, t))
    (hfails : (Encounter.call r id values t).Fails host stack e t') :
    (fetch host (whole host) stack id args (.callable r)).run s =
      some (.error e, (t'.ended (.call stack id values)).leave) := by
  cases hfails with
  | call hrun =>
    refine run_guarded_eq_some.2 (Or.inl ⟨hl, _, t'.ended (.call stack id values), ?_, rfl⟩)
    refine run_bind_of_error ?_ _
    rw [invoke, run_bind_of_ok hreceive, run_call _ _ _ hrun]
    rfl

theorem exists_of_run_fetch {id : String} {args : List Passed} {found : Found} {s s' : Session σ}
    (h : (fetch host (whole host) stack id args found).run s = some (.error e, s')) :
    e = .depthExceeded stack.maxDepth ∨ ∃ r values t t', found = .callable r ∧
      s.depth < stack.maxDepth.toNat ∧
      (receive args).run s.enter = some (.ok values, t) ∧
      (Encounter.call r id values t).Fails host stack e t' ∧
      s' = (t'.ended (.call stack id values)).leave := by
  cases found with
  | nothing =>
    rw [fetch, run_pure] at h
    simp at h
  | stored v =>
    rw [fetch, run_pure] at h
    simp at h
  | callable r =>
    rcases run_guarded_eq_some.1 h with ⟨hl, result, t', hbody, hr⟩ | ⟨-, hr⟩
    · obtain ⟨rfl, rfl⟩ := Prod.mk.inj hr
      right
      obtain ⟨values, t, hreceive⟩ :
          ∃ values t, (receive args).run s.enter = some (.ok values, t) := ⟨_, _, rfl⟩
      obtain ⟨outcome, u, hrun, -⟩ := Routine.logged_run host (host.call r id values stack) []
        (t.began (.call stack id values))
      rcases run_bind_eq_some.1 hbody with ⟨v, u', -, hpure⟩ | ⟨e', hinvoke, he⟩
      · rw [run_pure] at hpure
        simp at hpure
      · obtain rfl := Except.error.inj he
        rw [invoke, run_bind_of_ok hreceive, run_call _ _ _ hrun] at hinvoke
        obtain ⟨houtcome, rfl⟩ := Prod.mk.inj (Option.some.inj hinvoke)
        cases outcome with
        | ok v => simp [Except.mapError] at houtcome
        | error failure =>
          obtain rfl := Except.error.inj houtcome
          exact ⟨r, values, t, u, rfl, hl, hreceive, .call hrun, rfl⟩
    · exact Or.inl (Except.error.inj (Prod.mk.inj hr).1)

/-- **If segments come to something that fails**, they fail as it does and
nothing more is done. -/
theorem run_descend_of_meets {segments : List Segment} {scopes : List Value} {s : Session σ}
    {x : Encounter σ} (hx : Segment.Meets host stack segments scopes s x) {t : Session σ}
    (hfails : x.Fails host stack e t) : ∃ s',
      (descend host (whole host) stack segments scopes).run s = some (.error e, s') ∧
        t.Unwound s' := by
  induction hx with
  | @argument segment rest scopes s u before after p hpaths hbefore =>
    cases hfails with
    | path hp =>
      have hargs := evaluateAll_eq_error.2 (resolveAll_eq_error.2
        ⟨before, p, after, u, hpaths, hbefore, congrArg some hp⟩)
      exact ⟨t, by rw [descend]; exact run_bind_of_error hargs _, .refl t⟩
  | @callable segment rest scopes s s₁ u args r values hargs hfound hl hreceive =>
    have hfetch := run_fetch_of_fails hl hreceive hfails
    refine ⟨_, ?_, ((Session.Unwound.refl t).ended (.call stack segment.name values)).leave⟩
    rw [descend, run_bind_of_ok hargs, hfound]
    exact run_bind_of_error hfetch _
  | @later segment rest scopes s s₁ u args v x hargs hfetch _ ih =>
    obtain ⟨s', hrun, hunwound⟩ := ih hfails
    refine ⟨s', ?_, hunwound⟩
    rw [descend, run_bind_of_ok hargs, run_bind_of_ok hfetch]
    exact hrun

/-- **If segments fail**, they have come to something that does, unless it was at
the limit. -/
theorem exists_of_run_descend : ∀ {segments : List Segment} {scopes : List Value}
    {s s' : Session σ},
    (descend host (whole host) stack segments scopes).run s = some (.error e, s') →
    e = .depthExceeded stack.maxDepth ∨ ∃ x t, Segment.Meets host stack segments scopes s x ∧
      x.Fails host stack e t ∧ t.Unwound s'
  | [], scopes, s, s', h => by
    rw [descend, run_pure] at h
    simp at h
  | segment :: rest, scopes, s, s', h => by
    rw [descend] at h
    rcases run_bind_eq_some.1 h with ⟨args, s₁, hargs, hrest⟩ | ⟨e', hargs, he⟩
    · rcases run_bind_eq_some.1 hrest with ⟨found, s₂, hfetch, hrest⟩ | ⟨e', hfetch, he⟩
      · cases found with
        | none =>
          rw [run_pure] at hrest
          simp at hrest
        | some v =>
          refine (exists_of_run_descend hrest).imp_right ?_
          rintro ⟨x, t, hx, hfails, hunwound⟩
          exact ⟨x, t, .later hargs hfetch hx, hfails, hunwound⟩
      · obtain rfl := Except.error.inj he
        refine (exists_of_run_fetch hfetch).imp_right ?_
        rintro ⟨r, values, t, t', hfound, hl, hreceive, hfails, rfl⟩
        exact ⟨_, t', .callable hargs hfound hl hreceive, hfails,
          ((Session.Unwound.refl t').ended _).leave⟩
    · obtain rfl := Except.error.inj he
      right
      obtain ⟨before, p, after, u, hpaths, hbefore, hp⟩ :=
        resolveAll_eq_error.1 (evaluateAll_eq_error.1 hargs)
      exact ⟨.path p u, s', .argument hpaths hbefore, .path (Option.some.inj hp), .refl s'⟩

end

end Lookup

/-! ### Errors of a lookup -/

theorem Passed.buildAll_map_value (next : Identity) : ∀ vs : List Value,
    Passed.buildAll next (vs.map .value) = (vs, next)
  | [] => rfl
  | v :: vs => by
    have ih := buildAll_map_value next vs
    simp only [List.map_cons, Passed.buildAll, Passed.build, ih]

theorem Lookup.run_receive_map_value (vs : List Value) (s : Session σ) :
    (receive (vs.map .value)).run s = some (.ok vs, s) := by
  show some (Except.ok (Passed.buildAll s.nextIdentity (vs.map .value)).1,
    { s with nextIdentity := (Passed.buildAll s.nextIdentity (vs.map .value)).2 }) = _
  rw [Passed.buildAll_map_value]

section

variable {host : Host σ} {stack : Stack} {query : Query} {s : Session σ}

/-- **If a lookup comes to something that fails**, it fails with the same error,
and all it does from there on is to end what it has begun. -/
theorem Query.Meets.query_eq {x : Encounter σ} (hx : query.Meets host stack s x)
    {e : LookupError} {t : Session σ} (hfails : x.Fails host stack e t) :
    ∃ s', stack.query host query s = (.error e, s') ∧ t.Unwound s' := by
  cases hx with
  | @find id args r _ hfound hl =>
    have hfetch := Lookup.run_fetch_of_fails (s := s.began (.question stack (some id))) hl
      (Lookup.run_receive_map_value args _) hfails
    refine ⟨_, ?_, ((Session.Unwound.refl t).ended (.call stack id args)).leave.ended
      (.question stack (some id))⟩
    rw [← Option.some.injEq, ← Stack.query_eq]
    refine Lookup.run_tracked_eq_some.2 ⟨_, _, ?_, rfl⟩
    rw [Lookup.step, Lookup.findIn_eq_fetch, hfound]
    exact hfetch
  | @resolve segments _ _ hl hmeets =>
    obtain ⟨t', hdescend, hunwound⟩ := Lookup.run_descend_of_meets hmeets hfails
    obtain ⟨result, u, hfollow, hquery⟩ :=
      Stack.query_resolve_of_lt host (.segments segments) hl
    have hne : segments ≠ [] := by
      rintro rfl
      cases hmeets
    rw [Lookup.follow_eq_descend _ _ _ hne, hdescend] at hfollow
    obtain ⟨rfl, rfl⟩ := Prod.mk.inj (Option.some.inj hfollow)
    exact ⟨_, hquery, (hunwound.ended _).leave.ended _⟩

/-- **If a lookup fails**, it has come to something that does, unless it was at
the limit. -/
theorem Stack.exists_meets {e : LookupError} {s' : Session σ}
    (h : stack.query host query s = (.error e, s')) :
    e = .depthExceeded stack.maxDepth ∨ ∃ x t, query.Meets host stack s x ∧
      x.Fails host stack e t ∧ t.Unwound s' := by
  cases query with
  | find id args =>
    obtain ⟨result, t, hstep, hr⟩ :=
      Lookup.run_tracked_eq_some.1 (@Stack.query_eq σ host stack (.find id args) s)
    rw [h] at hr
    obtain ⟨rfl, rfl⟩ := Prod.mk.inj hr
    rw [Lookup.step, Lookup.findIn_eq_fetch] at hstep
    refine (Lookup.exists_of_run_fetch hstep).imp_right ?_
    rintro ⟨r, values, u, t', hfound, hl, hreceive, hfails, rfl⟩
    rw [Lookup.run_receive_map_value] at hreceive
    obtain ⟨hvalues, rfl⟩ := Prod.mk.inj (Option.some.inj hreceive)
    obtain rfl := Except.ok.inj hvalues
    exact ⟨_, t', .find hfound hl, hfails, ((Session.Unwound.refl t').ended _).leave.ended _⟩
  | resolve p =>
    by_cases hl : s.depth < stack.maxDepth.toNat
    · obtain ⟨result, t, hfollow, hr⟩ := query_resolve_of_lt host p hl
      rw [h] at hr
      obtain ⟨rfl, rfl⟩ := Prod.mk.inj hr
      cases p with
      | current =>
        rw [Lookup.follow, Lookup.run_pure] at hfollow
        simp at hfollow
      | segments segments =>
        by_cases hs : segments = []
        · rw [hs, Lookup.follow, Lookup.run_pure] at hfollow
          simp at hfollow
        · rw [Lookup.follow_eq_descend _ _ _ hs] at hfollow
          refine (Lookup.exists_of_run_descend hfollow).imp_right ?_
          rintro ⟨x, u, hx, hfails, hunwound⟩
          exact ⟨x, u, .resolve hl hx, hfails, (hunwound.ended _).leave.ended _⟩
    · rw [query_resolve_of_not_lt host p hl] at h
      exact Or.inl (Except.error.inj (Prod.mk.inj h).1).symm

end

end TagScope
