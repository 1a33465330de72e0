/-
# Errors on their way out

A callable that fails makes the lookup fail that called it: with the error itself
if that comes from a lookup, and else with one that names the callable
(`Failure.escape`). So an error is told together with a callable once, and from
there on it is passed on as it is, through however many lookups and callables, as
long as the callables forward it (`Stack.Relays.query_eq`).

Callables may do with errors what they like. Where they only pass on what their
own lookups have failed with and build no such errors themselves
(`Host.PassesOn`), an error that names a callable leads back to this callable: it
has been passed on from the lookup that called it, and the callable failed with
what the error holds (`Stack.exists_relays`). That is shown by induction on what
the lookup adds to the journal, because what it came to adds less.

Key definitions: `Routine.Puts`, `Host.PassesOn`, `Stack.Relays`.
Key theorems: `Stack.Relays.query_eq`, `Routine.exists_puts`, `Stack.exists_called`,
`Stack.exists_relays`, `Stack.ask_passes_on`.
-/
import TagScope.Proofs.Encounters
import TagScope.Proofs.Limit

namespace TagScope

variable {σ α : Type}

/-! ### Questions of a routine -/

section

variable (host : Host σ) (stack : Stack) (query : Query) (t : Session σ)
  (next : Except LookupError (Option Value) → Routine σ)

/-- The routine, begun in a session, comes to put this question to this stack in
the session `t`, and goes on with `next` from the answer. -/
inductive Routine.Puts : Routine σ → Session σ → Prop where
  | here : Routine.Puts (.ask stack query next) t
  | ask {other : Stack} {question : Query} {s : Session σ}
    {after : Except LookupError (Option Value) → Routine σ} :
    Routine.Puts (after (other.query host question s).1) (other.query host question s).2 →
    Routine.Puts (.ask other question after) s
  | build {items : List Value} {after : Value → Routine σ} {s : Session σ} :
    Routine.Puts (after (.list s.nextIdentity items))
      { s with nextIdentity := s.nextIdentity + 1 } →
    Routine.Puts (.build items after) s
  | depth {after : Nat → Routine σ} {s : Session σ} :
    Routine.Puts (after s.depth) s → Routine.Puts (.depth after) s
  | read {after : σ → Routine σ} {s : Session σ} :
    Routine.Puts (after s.state) s → Routine.Puts (.read after) s
  | write {state : σ} {after : Routine σ} {s : Session σ} :
    Routine.Puts after { s with state } → Routine.Puts (.write state after) s

end

namespace Routine.Puts

variable {host : Host σ} {stack : Stack} {query : Query} {s t : Session σ}
  {next : Except LookupError (Option Value) → Routine σ} {routine : Routine σ}

/-- From the question on the routine runs as what follows the answer. -/
theorem run_eq (h : Puts host stack query t next routine s) :
    routine.run (Lookup.whole host) s =
      (next (stack.query host query t).1).run (Lookup.whole host) (stack.query host query t).2 := by
  induction h with
  | here => rfl
  | ask _ ih => exact ih
  | build _ ih => exact ih
  | depth _ ih => exact ih
  | read _ ih => exact ih
  | write _ ih => exact ih

end Routine.Puts

/-! ### Chains of lookups -/

section

variable (host : Host σ) (e : LookupError) (stack : Stack) (query : Query) (s : Session σ)

/-- A lookup comes to another one, the lookup of `query` on `stack` in the session
`s`, through lookups in between that pass the error `e` on: each of them is a path
among the arguments of the lookup before it, or is asked for by a callable that the
lookup before it calls and that ends with this error if it is told it. -/
inductive Stack.Relays : Stack → Query → Session σ → Prop where
  | refl : Stack.Relays stack query s
  | argument {outer : Stack} {question : Query} {t u : Session σ} {p : Path} :
    question.Meets host outer t (.path p u) → Stack.Relays outer (.resolve p) u →
    Stack.Relays outer question t
  | callable {outer inner : Stack} {question asked : Query} {t u v w : Session σ} {r : Record}
    {member : String} {values : List Value}
    {next : Except LookupError (Option Value) → Routine σ} :
    question.Meets host outer t (.call r member values u) →
    (host.call r member values outer).Puts host inner asked v next
      (u.began (.call outer member values)) →
    (next (.error e)).run (Lookup.whole host) (inner.query host asked v).2 =
      some (.error (.lookup e), w) →
    Stack.Relays inner asked v → Stack.Relays outer question t

end

namespace Stack.Relays

variable {host : Host σ} {e : LookupError} {inner outer : Stack} {asked question : Query}
  {s t : Session σ}

theorem trans {far : Stack} {query : Query} {r : Session σ}
    (h : Relays host e inner asked s outer question t)
    (h' : Relays host e far query r inner asked s) :
    Relays host e far query r outer question t := by
  induction h with
  | refl => exact h'
  | argument hmeets _ ih => exact .argument hmeets ih
  | callable hmeets hputs hnext _ ih => exact .callable hmeets hputs hnext ih

/-- **An error that is passed on arrives**: the lookup at the outer end of the chain
fails with the error of the one at the inner end. -/
theorem query_eq (h : Relays host e inner asked s outer question t)
    (hfails : (inner.query host asked s).1 = .error e) :
    (outer.query host question t).1 = .error e := by
  induction h with
  | refl => exact hfails
  | @argument outer question t u p hmeets _ ih =>
    obtain ⟨_, hquery, -⟩ := hmeets.query_eq (.path (Prod.ext ih rfl))
    rw [hquery]
  | @callable outer inner question asked t u v w r member values next hmeets hputs hnext _ ih =>
    rw [← ih, ← hputs.run_eq] at hnext
    obtain ⟨_, hquery, -⟩ := hmeets.query_eq (.call hnext)
    rw [hquery]
    rfl

end Stack.Relays

/-! ### What lookups add to the journal -/

theorem Session.Logged.suffix {bound : Nat} {ongoing : List Activity} {s t : Session σ}
    (h : Logged bound ongoing s t) : s.journal <:+ t.journal := by
  obtain ⟨-, events, hj, -⟩ := h
  rw [← List.reverse_prefix, hj]
  exact List.prefix_append _ _

theorem Session.Unwound.suffix {s t : Session σ} (h : Unwound s t) : s.journal <:+ t.journal := by
  obtain ⟨events, hj, -⟩ := h.journal
  exact ⟨events, hj.symm⟩

theorem Stack.suffix_query (host : Host σ) (stack : Stack) (query : Query) (s : Session σ) :
    s.journal <:+ (stack.query host query s).2.journal :=
  (stack.logged_query host.asksWithin stack.maxDepth_le query [] s).suffix

theorem Run.Finishes.of_eq {R : Session σ → Session σ → Prop} {m : Run σ α} {s t : Session σ}
    {a : α} (h : Finishes R m s) (hm : m s = some (a, t)) : R s t := by
  obtain ⟨_, _, hm', hr⟩ := h
  obtain ⟨-, rfl⟩ := Prod.mk.inj (Option.some.inj (hm'.symm.trans hm))
  exact hr

section

variable {host : Host σ} {stack : Stack} {s t : Session σ}

theorem Lookup.suffix_of_resolveAll : ∀ {ps : List Path} {s : Session σ},
    (resolveAll (fun p => whole host stack (.resolve p)) ps).run s = some (.ok ⟨⟩, t) →
    s.journal <:+ t.journal
  | [], s, h => by
    obtain ⟨-, rfl⟩ := Prod.mk.inj (Option.some.inj h)
    exact List.suffix_rfl
  | p :: ps, s, h => by
    rw [resolveAll] at h
    rcases run_bind_eq_some.1 h with ⟨_, u, hp, hps⟩ | ⟨_, -, he⟩
    · have hquery := stack.suffix_query host (.resolve p) s
      rw [Option.some.inj hp] at hquery
      exact hquery.trans (suffix_of_resolveAll hps)
    · simp at he

theorem Lookup.suffix_of_arguments {segment : Segment} {args : List Passed}
    (h : (arguments (whole host) stack segment).run s = some (.ok args, t)) :
    s.journal <:+ t.journal := by
  have hfinishes : Run.Finishes (Session.Logged (2 ^ 64) [.resolution stack])
      (arguments (whole host) stack segment).run s :=
    finishes_arguments (Session.invariant_logged _) (answersWithin_whole host) stack.maxDepth_le
      segment s s.within_max
  exact (hfinishes.of_eq h).suffix

theorem Lookup.suffix_of_fetch {id : String} {args : List Passed} {scopes : List Value}
    {found : Option Value}
    (h : (fetch host (whole host) stack id args (Found.first id scopes)).run s =
      some (.ok found, t)) : s.journal <:+ t.journal := by
  rw [← findIn_eq_fetch] at h
  have hfinishes : Run.Finishes (Session.Logged (2 ^ 64) [.resolution stack])
      (findIn host (whole host) stack id args scopes).run s :=
    finishes_findIn (Session.invariant_logged _) (answersWithin_whole host) host.asksWithin
      stack.maxDepth_le id args (fun _ => Or.inr rfl) scopes s s.within_max.succ
  exact (hfinishes.of_eq h).suffix

theorem Segment.Meets.suffix {segments : List Segment} {scopes : List Value} {x : Encounter σ}
    (h : Segment.Meets host stack segments scopes s x) : s.journal <:+ x.session.journal := by
  induction h with
  | argument _ hbefore => exact Lookup.suffix_of_resolveAll hbefore
  | @callable segment _ _ _ s' _ _ _ _ hargs _ _ hreceive =>
    obtain ⟨-, rfl⟩ := Prod.mk.inj (Option.some.inj hreceive)
    exact (Lookup.suffix_of_arguments hargs).trans (List.suffix_cons _ _)
  | later hargs hfetch _ ih =>
    exact ((Lookup.suffix_of_arguments hargs).trans (Lookup.suffix_of_fetch hfetch)).trans ih

/-- A lookup has told that it was asked before it comes to anything. -/
theorem Query.Meets.length_lt {query : Query} {x : Encounter σ} (h : query.Meets host stack s x) :
    s.journal.length < x.session.journal.length := by
  cases h with
  | find => exact Nat.lt_succ_of_lt (Nat.lt_succ_self _)
  | resolve _ hmeets =>
    have hle := hmeets.suffix.length_le
    simp only [Session.opened, Session.began, Session.note, Session.enter, List.length_cons] at hle
    omega

theorem Routine.suffix_of_run {routine : Routine σ} {result : Except Failure Value}
    (h : routine.run (Lookup.whole host) s = some (result, t)) : s.journal <:+ t.journal := by
  obtain ⟨_, _, h', hlogged⟩ := Routine.logged_run host routine [] s
  obtain ⟨-, rfl⟩ := Prod.mk.inj (Option.some.inj (h'.symm.trans h))
  exact hlogged.suffix

theorem Routine.Puts.suffix {query : Query} {routine : Routine σ}
    {next : Except LookupError (Option Value) → Routine σ}
    (h : Puts host stack query t next routine s) : s.journal <:+ t.journal := by
  induction h with
  | here => exact List.suffix_rfl
  | ask _ ih => exact (Stack.suffix_query ..).trans ih
  | build _ ih => exact ih
  | depth _ ih => exact ih
  | read _ ih => exact ih
  | write _ ih => exact ih

end

/-! ### Callables that pass errors on -/

/-- Whether a routine that has been told the errors `seen` only fails with errors of
its own making that are no errors of lookups, with errors of tags that it read
itself, and with errors that its lookups have told it. -/
def Routine.PassesOn (seen : LookupError → Prop) : Routine σ → Prop
  | .done _ => True
  | .fail (.plain _) | .fail (.malformed _) => True
  | .fail (.lookup e) => (∃ p, e = .malformed p) ∨ seen e
  | .ask _ _ next => ∀ answer, PassesOn (fun e => seen e ∨ answer = .error e) (next answer)
  | .build _ next => ∀ v, PassesOn seen (next v)
  | .depth next => ∀ n, PassesOn seen (next n)
  | .read next => ∀ state, PassesOn seen (next state)
  | .write _ next => PassesOn seen next

/-- Callables that build no errors of lookups, but only pass on those of theirs. -/
def Host.PassesOn (host : Host σ) : Prop :=
  ∀ r member values stack, (host.call r member values stack).PassesOn fun _ => False

/-- **The error of a lookup that a routine fails with** is that of a lookup it has
made. -/
theorem Routine.exists_puts {host : Host σ} {e : LookupError} {t : Session σ} :
    ∀ {routine : Routine σ} {seen : LookupError → Prop} {s : Session σ}, routine.PassesOn seen →
    routine.run (Lookup.whole host) s = some (.error (.lookup e), t) →
    (∃ p, e = .malformed p) ∨ seen e ∨ ∃ stack query u next,
      Puts host stack query u next routine s ∧ (stack.query host query u).1 = .error e ∧
      (next (.error e)).run (Lookup.whole host) (stack.query host query u).2 =
        some (.error (.lookup e), t)
  | .done v, _, s, _, h => by
    obtain ⟨hdone, -⟩ := Prod.mk.inj (Option.some.inj h)
    simp at hdone
  | .fail f, _, s, hpasses, h => by
    obtain ⟨hfailed, -⟩ := Prod.mk.inj (Option.some.inj h)
    obtain rfl := Except.error.inj hfailed
    exact hpasses.imp_right Or.inl
  | .ask stack query next, seen, s, hpasses, h => by
    have hrun : (next (stack.query host query s).1).run (Lookup.whole host)
      (stack.query host query s).2 = some (.error (.lookup e), t) := h
    rcases exists_puts (hpasses _) hrun with hp | (hseen | hanswer) | hputs
    · exact Or.inl hp
    · exact Or.inr (Or.inl hseen)
    · rw [hanswer] at hrun
      exact Or.inr (Or.inr ⟨stack, query, s, next, .here, hanswer, hrun⟩)
    · obtain ⟨other, question, u, after, hputs, hfails, hafter⟩ := hputs
      exact Or.inr (Or.inr ⟨other, question, u, after, .ask hputs, hfails, hafter⟩)
  | .build _ next, _, _, hpasses, h =>
    (exists_puts (hpasses _) h).imp_right <| .imp_right
      fun ⟨stack, query, u, after, hputs, hrest⟩ => ⟨stack, query, u, after, .build hputs, hrest⟩
  | .depth next, _, _, hpasses, h =>
    (exists_puts (hpasses _) h).imp_right <| .imp_right
      fun ⟨stack, query, u, after, hputs, hrest⟩ => ⟨stack, query, u, after, .depth hputs, hrest⟩
  | .read next, _, _, hpasses, h =>
    (exists_puts (hpasses _) h).imp_right <| .imp_right
      fun ⟨stack, query, u, after, hputs, hrest⟩ => ⟨stack, query, u, after, .read hputs, hrest⟩
  | .write state next, seen, s, hpasses, h =>
    have hnext : next.PassesOn seen := hpasses
    (exists_puts (s := { s with state }) hnext h).imp_right <| .imp_right
      fun ⟨stack, query, u, after, hputs, hrest⟩ => ⟨stack, query, u, after, .write hputs, hrest⟩

/-! ### Where an error comes from -/

namespace Stack

/-- **An error comes from a callable**, unless it is that of the limit: a callable
has failed with it that the lookup called, or the lookup of a path among arguments
that it came to. -/
theorem exists_called {host : Host σ} {stack : Stack} {query : Query} {s s' : Session σ}
    {e : LookupError} (h : stack.query host query s = (.error e, s')) :
    e = .depthExceeded stack.maxDepth ∨ ∃ asked t r member values u failure v,
      Relays host e stack asked t stack query s ∧
      asked.Meets host stack t (.call r member values u) ∧
      (host.call r member values stack).run (Lookup.whole host)
        (u.began (.call stack member values)) = some (.error failure, v) ∧
      e = failure.escape member ∧
      s.journal.length < u.journal.length ∧ v.journal.length ≤ s'.journal.length := by
  rcases exists_meets h with hlimit | ⟨x, w, hmeets, hfails, hunwound⟩
  · exact Or.inl hlimit
  -- what the lookup came to began later than the lookup and has ended before it
  have hbegan := hmeets.length_lt
  have hended := hunwound.suffix.length_le
  cases hfails with
  | @call r member values u _ failure hrun =>
    exact Or.inr ⟨query, s, r, member, values, u, failure, w, .refl, hmeets, hrun, rfl, hbegan,
      hended⟩
  | @path p u _ _ hpath =>
    simp only [Encounter.session] at hbegan
    have hless : (stack.query host (.resolve p) u).2.journal.length - u.journal.length <
        (stack.query host query s).2.journal.length - s.journal.length := by
      have hgrown := (stack.suffix_query host (.resolve p) u).length_le
      rw [hpath] at hgrown ⊢
      rw [h]
      simp only at hgrown ⊢
      omega
    refine (exists_called hpath).imp_right ?_
    rintro ⟨asked, t, r, member, values, u', failure, v, hrelays, hcall, hrun, he, hu, hv⟩
    exact ⟨asked, t, r, member, values, u', failure, v, .argument hmeets hrelays, hcall, hrun, he,
      Nat.lt_trans hbegan hu, Nat.le_trans hv hended⟩
termination_by (stack.query host query s).2.journal.length - s.journal.length

/-- **An error that names a callable** has been passed on from the lookup that
called it, and the callable failed with what the error holds. -/
theorem exists_relays {host : Host σ} (hh : host.PassesOn) {stack : Stack} {query : Query}
    {s s' : Session σ} {member : String} {source : Failure}
    (h : stack.query host query s = (.error (.callFailed member source), s')) :
    (∀ e, source ≠ .lookup e) ∧ ∃ inner asked t r values u v,
      Relays host (.callFailed member source) inner asked t stack query s ∧
      asked.Meets host inner t (.call r member values u) ∧
      (host.call r member values inner).run (Lookup.whole host)
        (u.began (.call inner member values)) = some (.error source, v) := by
  rcases exists_called h with hlimit | ⟨asked, t, r, id, values, u, failure, w, hrelays, hmeets,
    hrun, herror, hbegan, hended⟩
  · simp at hlimit
  match failure with
  | .plain message =>
    obtain ⟨rfl, rfl⟩ := LookupError.callFailed.inj herror
    exact ⟨by simp, stack, asked, t, r, values, u, w, hrelays, hmeets, hrun⟩
  | .malformed p =>
    obtain ⟨rfl, rfl⟩ := LookupError.callFailed.inj herror
    exact ⟨by simp, stack, asked, t, r, values, u, w, hrelays, hmeets, hrun⟩
  | .lookup e =>
    obtain rfl : LookupError.callFailed member source = e := herror
    obtain ⟨p, hp⟩ | hseen | ⟨inner, question, v, next, hputs, hanswer, hnext⟩ :=
      Routine.exists_puts (hh r id values stack) hrun
    · simp at hp
    · exact hseen.elim
    · have hless : (inner.query host question v).2.journal.length - v.journal.length <
          (stack.query host query s).2.journal.length - s.journal.length := by
        have hasked := hputs.suffix.length_le
        have hgrown := (inner.suffix_query host question v).length_le
        have hforwarded := (Routine.suffix_of_run hnext).length_le
        rw [h]
        simp only [Session.began, Session.note, List.length_cons] at hasked ⊢
        omega
      obtain ⟨hsource, inner', asked', t', r', values', u', v', hrelays', hrest⟩ :=
        exists_relays hh (Prod.ext hanswer rfl)
      exact ⟨hsource, inner', asked', t', r', values', u', v',
        hrelays.trans (.callable hmeets hputs hnext hrelays'), hrest⟩
termination_by (stack.query host query s).2.journal.length - s.journal.length

/-- **Errors travel out unchanged and are wrapped once.** Where callables only pass
errors of lookups on, an error that names a callable holds no error of a lookup; it
has been passed on from the lookup that called this callable, and the callable
failed with what it holds. Whatever the callables do: if a callable fails that a
lookup has called, the lookup fails with that error if it is one of a lookup, and
else with one that names the callable; if a path among arguments fails, it fails
with the same error; and in both cases all that happens from there on is that the
lookup ends what it has begun, so no further argument, segment or scope is tried.
Through any chain of lookups and callables that pass an error on, the outermost
lookup fails with the error of the innermost. -/
theorem ask_passes_on (host : Host σ) (stack : Stack) (request : Request) (s : Session σ) :
    (host.PassesOn → ∀ member source s',
      stack.ask host request s = (.error (.callFailed member source), s') →
      (∀ e, source ≠ .lookup e) ∧ ∃ query, request.query = .ok query ∧
        ∃ inner asked t r values u v,
          Relays host (.callFailed member source) inner asked t stack query s ∧
          asked.Meets host inner t (.call r member values u) ∧
          (host.call r member values inner).run (Lookup.whole host)
            (u.began (.call inner member values)) = some (.error source, v)) ∧
    ∀ query, request.query = .ok query →
      (∀ r member values t failure u, query.Meets host stack s (.call r member values t) →
        (host.call r member values stack).run (Lookup.whole host)
          (t.began (.call stack member values)) = some (.error failure, u) →
        ∃ s', stack.ask host request s = (.error (failure.escape member), s') ∧ u.Unwound s') ∧
      (∀ p t e u, query.Meets host stack s (.path p t) →
        stack.query host (.resolve p) t = (.error e, u) →
        ∃ s', stack.ask host request s = (.error e, s') ∧ u.Unwound s') ∧
      ∀ e inner asked t, Relays host e inner asked t stack query s →
        (inner.query host asked t).1 = .error e → (stack.ask host request s).1 = .error e := by
  rw [ask_eq]
  refine ⟨fun hh member source s' h => ?_, fun query hq => ?_⟩
  · cases hq : request.query with
    | ok query =>
      rw [hq] at h
      obtain ⟨hsource, hrelays⟩ := exists_relays hh h
      exact ⟨hsource, query, rfl, hrelays⟩
    | error e =>
      -- what is not asked at all has failed because its tag is malformed
      rw [hq] at h
      cases request with
      | find => simp [Request.query] at hq
      | resolve => simp [Request.query] at hq
      | lookup tag =>
        obtain rfl := Except.error.inj (Prod.mk.inj h).1
        cases hparse : Path.parse tag with
        | ok p => simp [Request.query, hparse, Except.map, Except.mapError] at hq
        | error p => simp [Request.query, hparse, Except.map, Except.mapError] at hq
  · rw [hq]
    refine ⟨fun r member values t failure u hmeets hrun => ?_, fun p t e u hmeets hp => ?_, ?_⟩
    · exact hmeets.query_eq (.call hrun)
    · exact hmeets.query_eq (.path hp)
    · exact fun e inner asked t hrelays hfails => hrelays.query_eq hfails

end Stack

/-- A host with a callable that fails. All others look it up, on a stack with one
more scope, and forward its error. -/
def Host.relay : Host Unit where
  call _ member _ stack :=
    if member = "boom" then .fail (.plain "disk on fire")
    else .ask (stack.push .null) (.resolve (.ofName "boom")) (Routine.ofAnswer .absent)

theorem Host.relay_passesOn : relay.PassesOn := by
  intro r member values stack
  by_cases hm : member = "boom"
  · simp [relay, hm, Routine.PassesOn]
  · simp only [relay, if_neg hm]
    intro answer
    match answer with
    | .ok (some _) | .ok none => trivial
    | .error _ => exact Or.inr (Or.inr rfl)

namespace Stack

/-- A stack with the callable that fails and one that forwards its error. -/
def relaying : Stack where
  frames := [.record (.withCallable "relay"), .record (.withCallable "boom")]

/-- The error of the callable comes out of the argument in which another one has
looked it up, and out of the path around it. -/
theorem ask_passes_on_relay :
    (ask Host.relay relaying (.resolve (.segments [.call "boom" [.path (.ofName "relay")]]))
      { state := () }).1 = .error (.callFailed "boom" (.plain "disk on fire")) ∧
    (∀ e, Failure.plain "disk on fire" ≠ .lookup e) := by
  let path : Path := .segments [.call "boom" [.path (.ofName "relay")]]
  let s : Session Unit := { state := () }
  let t := s.opened relaying
  let u := (t.opened relaying).enter
  let v := u.began (.call relaying "relay" [])
  obtain ⟨hwrapped, hrest⟩ := ask_passes_on Host.relay relaying (.resolve path) s
  obtain ⟨-, -, hchain⟩ := hrest (.resolve path) rfl
  have hargument : (Query.resolve path).Meets Host.relay relaying s (.path (.ofName "relay") t) :=
    .resolve (by decide) (.argument (List.nil_append [_]).symm rfl)
  have hcallable : (Query.resolve (.ofName "relay")).Meets Host.relay relaying t
      (.call (.withCallable "relay") "relay" [] u) :=
    .resolve (by decide) (.callable rfl rfl (by decide) rfl)
  have hboom : (Query.resolve (.ofName "boom")).Meets Host.relay (relaying.push .null) v
      (.call (.withCallable "boom") "boom" [] (v.opened (relaying.push .null)).enter) :=
    .resolve (by decide) (.callable rfl rfl (by decide) rfl)
  obtain ⟨-, hinner⟩ := ask_passes_on Host.relay (relaying.push .null) (.resolve (.ofName "boom")) v
  obtain ⟨_, hfailed, -⟩ := (hinner _ rfl).1 _ _ _ _ _ _ hboom rfl
  have hrelays : Relays Host.relay (.callFailed "boom" (.plain "disk on fire"))
      (relaying.push .null) (.resolve (.ofName "boom")) v relaying (.resolve path) s :=
    .argument hargument (.callable hcallable .here rfl .refl)
  have hfails := hchain _ _ _ _ hrelays (congrArg Prod.fst hfailed)
  exact ⟨hfails, (hwrapped Host.relay_passesOn _ _ _ (Prod.ext hfails rfl)).1⟩

end Stack

end TagScope
