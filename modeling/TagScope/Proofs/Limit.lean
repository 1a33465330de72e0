/-
# What the limit bounds

Callables may ask for one another, and for themselves, as they like. If no stack
that they ask has a limit above some bound, a lookup is carried out within as
many levels as there is room up to that bound, and no more activities than the
bound are in progress at any time: every way back into a lookup leads through
a guard.

A callable that always asks for itself again is stopped by its limit and by
nothing else. The same holds for callables that ask for one another in a circle:
the error of the innermost lookup comes out of the outermost.

Key definitions: `Query.Lead`, `Routine.Relapses`, `Host.Circular`.
Key theorems: `Stack.answer_eq_query`, `Stack.query_of_circular`, `Stack.ask_within`.
-/
import TagScope.Proofs.Family
import TagScope.Proofs.Members

namespace TagScope

variable {σ α β : Type}

/-! ### Levels within a bound -/

/-- **As many levels as there is room** below the bound are enough. -/
theorem Stack.answer_eq_query {bound : Nat} {host : Host σ} (hh : host.AsksWithin bound)
    {stack : Stack} (hb : stack.maxDepth.toNat ≤ bound) (query : Query) (s : Session σ)
    {levels : Nat} (hl : bound - s.depth < levels) :
    (Lookup.answer host levels stack query).run s = some (stack.query host query s) := by
  have hwithin : s.Within bound levels := by
    unfold Session.Within
    omega
  obtain ⟨a, s', h, -⟩ := Lookup.finishes_answer (Session.invariant_depth bound) hh levels []
    stack query s hb hwithin
  rw [Stack.query_eq_of_answer h]
  exact h

/-! ### Constant arguments -/

mutual

/-- Whether an argument is evaluated without asking for anything. -/
def Arg.isConstant : Arg → Bool
  | .literal _ => true
  | .path _ => false
  | .list items => Arg.areConstant items
termination_by structural a => a

/-- Whether all arguments are. -/
def Arg.areConstant : List Arg → Bool
  | [] => true
  | a :: as => Arg.isConstant a && Arg.areConstant as
termination_by structural as => as

end

namespace Lookup

mutual

theorem run_evaluate_of_isConstant (resolve : Path → Lookup σ (Option Value)) (s : Session σ) :
    ∀ a : Arg, a.isConstant = true → ∃ p, (evaluate resolve a).run s = some (.ok p, s)
  | .literal v, _ => ⟨.value v, rfl⟩
  | .path _, h => by simp [Arg.isConstant] at h
  | .list items, h => by
    obtain ⟨ps, hps⟩ := run_evaluateAll_of_areConstant resolve s items h
    refine ⟨.list ps, ?_⟩
    rw [evaluate, run_bind_of_ok hps]
    rfl

theorem run_evaluateAll_of_areConstant (resolve : Path → Lookup σ (Option Value))
    (s : Session σ) : ∀ as : List Arg, Arg.areConstant as = true →
    ∃ ps, (evaluateAll resolve as).run s = some (.ok ps, s)
  | [], _ => ⟨[], rfl⟩
  | a :: as, h => by
    rw [Arg.areConstant, Bool.and_eq_true] at h
    obtain ⟨p, hp⟩ := run_evaluate_of_isConstant resolve s a h.1
    obtain ⟨ps, hps⟩ := run_evaluateAll_of_areConstant resolve s as h.2
    refine ⟨p :: ps, ?_⟩
    rw [evaluateAll, run_bind_of_ok hp, run_bind_of_ok hps]
    rfl

end

end Lookup

theorem Lookup.run_arguments_of_areConstant {segment : Segment}
    (h : Arg.areConstant segment.args = true) (answer : Stack → Query → Lookup σ (Option Value))
    (stack : Stack) (s : Session σ) :
    ∃ args, (arguments answer stack segment).run s = some (.ok args, s) :=
  run_evaluateAll_of_areConstant _ s segment.args h

/-! ### Ways to a callable -/

/-- Segments that lead from a value to a callable of a record before anything
else is called. -/
def Segment.Lead (r : Record) (id : String) : List Segment → Value → Prop
  | [], _ => False
  | segment :: rest, v => Arg.areConstant segment.args = true ∧
    ((segment.name = id ∧ v.found segment.name = .callable r) ∨
      ∃ w, v.found segment.name = .stored w ∧ Segment.Lead r id rest w)

/-- A question to a stack that leads to a callable of a record before anything
else is called. -/
def Query.Lead (r : Record) (id : String) (stack : Stack) : Query → Prop
  | .find name _ => name = id ∧ Found.first name stack.frames = .callable r
  | .resolve .current | .resolve (.segments []) => False
  | .resolve (.segments (segment :: rest)) => Arg.areConstant segment.args = true ∧
    ((segment.name = id ∧ Found.first segment.name stack.frames = .callable r) ∨
      ∃ w, Found.first segment.name stack.frames = .stored w ∧ Segment.Lead r id rest w)

/-- A question to one of these stacks that leads to one of these callables. -/
def Query.LeadAmong (members : Stack → Prop) (callables : Record → String → Prop) (stack : Stack)
    (query : Query) : Prop :=
  members stack ∧ ∃ r id, callables r id ∧ query.Lead r id stack

/-- A routine that asks one of these questions sooner or later and passes its
error on. Before that it does what it likes, and asks what it likes, but goes on
whatever the answers are. -/
inductive Routine.Relapses (again : Stack → Query → Prop) : Routine σ → Prop where
  | again {stack : Stack} {query : Query}
    {next : Except LookupError (Option Value) → Routine σ} :
    again stack query → (∀ e, next (.error e) = .fail (.lookup e)) →
    Routine.Relapses again (.ask stack query next)
  | ask {stack : Stack} {query : Query} {next : Except LookupError (Option Value) → Routine σ} :
    (∀ answer, Routine.Relapses again (next answer)) →
    Routine.Relapses again (.ask stack query next)
  | build {items : List Value} {next : Value → Routine σ} :
    (∀ v, Routine.Relapses again (next v)) → Routine.Relapses again (.build items next)
  | depth {next : Nat → Routine σ} :
    (∀ n, Routine.Relapses again (next n)) → Routine.Relapses again (.depth next)
  | read {next : σ → Routine σ} :
    (∀ state, Routine.Relapses again (next state)) → Routine.Relapses again (.read next)
  | write {state : σ} {next : Routine σ} :
    Routine.Relapses again next → Routine.Relapses again (.write state next)

/-- Callables that always ask for one another again, or for themselves, on the
stack that they run on or on others of these, all of which have the same limit. -/
structure Host.Circular (host : Host σ) (limit : UInt64) (members : Stack → Prop)
    (callables : Record → String → Prop) : Prop where
  limit : ∀ stack, members stack → stack.maxDepth = limit
  relapses : ∀ stack, members stack → ∀ r id, callables r id → ∀ args,
    (host.call r id args stack).Relapses (Query.LeadAmong members callables)

/-! ### Circles end at the limit -/

section

variable {host : Host σ} {stack : Stack} {again : Stack → Query → Prop} {e : LookupError}

theorem Routine.run_of_relapses {r : Routine σ} (hr : r.Relapses again) :
    ∀ {s : Session σ}, (∀ stack query s', again stack query → s'.depth = s.depth →
      (stack.query host query s').1 = .error e) →
    ∃ s', r.run (Lookup.whole host) s = some (.error (.lookup e), s') := by
  induction hr with
  | @again stack query next ha hnext =>
    intro s h
    have hfail := h stack query s ha rfl
    refine ⟨(stack.query host query s).2, ?_⟩
    show (next (stack.query host query s).1).run _ (stack.query host query s).2 = _
    rw [hfail, hnext]
    rfl
  | @ask other query next _ ih =>
    intro s h
    have hdepth : (other.query host query s).2.depth = s.depth :=
      (other.logged_query host.asksWithin other.maxDepth_le query [] s).1
    exact ih (other.query host query s).1 fun st q s' hq hs' => h st q s' hq (hs'.trans hdepth)
  | @build items next _ ih =>
    intro s h
    exact ih _ fun st q s' hq hs' => h st q s' hq hs'
  | @depth next _ ih =>
    intro s h
    exact ih s.depth h
  | @read next _ ih =>
    intro s h
    exact ih s.state h
  | @write state next _ ih =>
    intro s h
    exact ih fun st q s' hq hs' => h st q s' hq hs'

/-- Below the limit, such questions fail with its error if they are asked with
more in progress than in this session. -/
def Host.FailsDeeper (host : Host σ) (limit : UInt64) (again : Stack → Query → Prop)
    (s : Session σ) : Prop :=
  ∀ stack query s', again stack query → s.depth < limit.toNat → s.depth < s'.depth →
    (stack.query host query s').1 = .error (.depthExceeded limit)

namespace Lookup

section

variable {r : Record} {id : String}
  (hr : ∀ values, (host.call r id values stack).Relapses again)

include hr

/-- A callable whose routine relapses fails as the relapse does, or at its own
guard. -/
theorem fails_fetch_of_relapses {args : List Passed} {s : Session σ}
    (h : host.FailsDeeper stack.maxDepth again s) :
    Fails (.depthExceeded stack.maxDepth)
      (fetch host (whole host) stack id args (.callable r)) s := by
  refine Fails.guarded fun hl => ?_
  obtain ⟨values, s₁, hreceive, hdepth⟩ : ∃ values s₁, (receive args).run s.enter =
      some (.ok values, s₁) ∧ s₁.depth = s.depth + 1 := ⟨_, _, rfl, rfl⟩
  have hasked : ∀ other query s', again other query →
      s'.depth = (s₁.began (.call stack id values)).depth →
      (other.query host query s').1 = .error (.depthExceeded stack.maxDepth) := by
    intro other query s' hq hs'
    have hdepth' : s'.depth = s.depth + 1 := hs'.trans hdepth
    exact h other query s' hq hl (by omega)
  obtain ⟨s₂, hs₂⟩ := Routine.run_of_relapses (hr values) hasked
  exact Fails.bind (Fails.bind_of_ok hreceive ⟨_, run_call _ _ _ hs₂⟩) _

theorem fails_narrow_of_lead {s : Session σ} (h : host.FailsDeeper stack.maxDepth again s) :
    ∀ (segments : List Segment) (v : Value), Segment.Lead r id segments v →
    Fails (.depthExceeded stack.maxDepth) (narrow host (whole host) stack v segments) s
  | [], _, hlead => hlead.elim
  | segment :: rest, v, ⟨hconstant, hlead⟩ => by
    obtain ⟨args, hargs⟩ := run_arguments_of_areConstant hconstant (whole host) stack s
    refine Fails.bind_of_ok hargs ?_
    rw [member_eq_fetch]
    rcases hlead with ⟨hname, hfound⟩ | ⟨w, hfound, hlead⟩
    · rw [hfound, hname]
      exact (fails_fetch_of_relapses hr h).bind _
    · rw [hfound]
      exact Fails.bind_of_ok (run_fetch_stored ..) (fails_narrow_of_lead h rest w hlead)

/-- A question that leads to a callable of the circle fails where the circle does. -/
theorem fails_step_of_lead {query : Query} (hlead : query.Lead r id stack) {s : Session σ}
    (h : host.FailsDeeper stack.maxDepth again s) :
    Fails (.depthExceeded stack.maxDepth) (step host (whole host) stack query) s := by
  match query with
  | .find name args =>
    obtain ⟨rfl, hfound⟩ := hlead
    rw [step, findIn_eq_fetch, hfound]
    exact fails_fetch_of_relapses hr h
  | .resolve .current | .resolve (.segments []) => exact hlead.elim
  | .resolve (.segments (segment :: rest)) =>
    obtain ⟨hconstant, hlead⟩ := hlead
    refine Fails.guarded fun hl => Fails.tracked ?_
    -- the path itself is one more activity, so what it asks is deeper still
    have h' : host.FailsDeeper stack.maxDepth again
        (s.enter.began (.resolution stack)) :=
      fun other query s' hq _ hs' => h other query s' hq hl (Nat.lt_of_succ_lt hs')
    obtain ⟨args, hargs⟩ := run_arguments_of_areConstant hconstant (whole host) stack _
    refine Fails.bind_of_ok hargs ?_
    rw [findIn_eq_fetch]
    rcases hlead with ⟨hname, hfound⟩ | ⟨w, hfound, hlead⟩
    · rw [hfound, hname]
      exact (fails_fetch_of_relapses hr h').bind _
    · rw [hfound]
      exact Fails.bind_of_ok (run_fetch_stored ..) (fails_narrow_of_lead hr h' rest w hlead)

end

end Lookup

/-- **A circle of callables ends at the limit**, whichever of them is asked for. -/
theorem Stack.query_of_circular {limit : UInt64} {members : Stack → Prop}
    {callables : Record → String → Prop} (hc : host.Circular limit members callables)
    (stack : Stack) (query : Query) (hq : query.LeadAmong members callables stack)
    (s : Session σ) : (stack.query host query s).1 = .error (.depthExceeded limit) := by
  obtain ⟨hstack, r, id, hr, hlead⟩ := hq
  have hlimit : stack.maxDepth = limit := hc.limit stack hstack
  have hdeeper : host.FailsDeeper stack.maxDepth (Query.LeadAmong members callables) s := by
    rw [hlimit]
    exact fun other query s' hq _ _ => Stack.query_of_circular hc other query hq s'
  have hfails := Lookup.fails_step_of_lead (s := s.began (.question stack query.name?))
    (hc.relapses stack hstack r id hr) hlead hdeeper
  obtain ⟨s', hs'⟩ := hfails.tracked
  rw [Stack.query_eq, Option.some.injEq] at hs'
  rw [hs', hlimit]
termination_by limit.toNat - s.depth
decreasing_by omega

end

/-! ### Everything within the bound -/

open Journal

/-- Wherever a lookup within the bound begins, what it tells fits what is in progress
around it. -/
theorem Stack.fitting_ask {bound : Nat} {host : Host σ} (hh : host.AsksWithin bound)
    {stack : Stack} (hb : stack.maxDepth.toNat ≤ bound) (request : Request) (s : Session σ) :
    ∃ events, (stack.ask host request s).2.journal.reverse = s.journal.reverse ++ events ∧
      ∀ before, count before = s.depth → Fitting bound none before events := by
  obtain ⟨-, events, hj, -⟩ := stack.logged_ask hh hb request [] s
  refine ⟨events, hj, fun before hbefore => ?_⟩
  obtain ⟨-, events', hj', hc⟩ := stack.logged_ask hh hb request before s
  obtain rfl : events = events' := List.append_cancel_left (hj.symm.trans hj')
  exact (hc hbefore.symm).fitting none

/-- **The limit bounds what callables ask for.** If they put their questions to
stacks within the bound only, whatever is asked of such a stack is answered, or
fails, within as many levels as there is room. At every moment no more path
resolutions and calls are in progress than the bound, and each of them begins
where the count is their number and below the limit of the stack that it runs on.
Callables that only ask for one another again end with the error of their limit. -/
theorem Stack.ask_within {bound : Nat} {host : Host σ} (hh : host.AsksWithin bound) :
    (∀ (stack : Stack) (request : Request) (s : Session σ), stack.maxDepth.toNat ≤ bound →
      (∀ query, request.query = .ok query → ∀ levels, bound - s.depth < levels →
        (Lookup.answer host levels stack query).run s = some (stack.ask host request s)) ∧
      (∀ e, request.query = .error e → stack.ask host request s = (.error e, s)) ∧
      ∃ events, (stack.ask host request s).2.journal.reverse = s.journal.reverse ++ events ∧
        ∀ before : List Activity, count before = s.depth →
        ∀ past future, events = past ++ future →
          count (running before past) ≤ max s.depth bound ∧
          ∀ e rest, future = e :: rest → e.Fitting bound (running before past) rest.head?) ∧
    (∀ (limit : UInt64) (members : Stack → Prop) (callables : Record → String → Prop),
      host.Circular limit members callables →
      ∀ (stack : Stack) (request : Request) query, request.query = .ok query →
        query.LeadAmong members callables stack → ∀ s : Session σ,
        (stack.ask host request s).1 = .error (.depthExceeded limit)) := by
  refine ⟨fun stack request s hb => ⟨?_, ?_, ?_⟩, ?_⟩
  · intro query hq levels hl
    rw [Stack.ask_eq, hq]
    exact Stack.answer_eq_query hh hb query s hl
  · intro e he
    rw [Stack.ask_eq, he]
  · obtain ⟨events, hj, hfits⟩ := stack.fitting_ask hh hb request s
    refine ⟨events, hj, fun before hbefore past future he => ?_⟩
    have hfitting := hfits before hbefore
    rw [he] at hfitting
    refine ⟨?_, ?_⟩
    · have hpast := (fitting_append.1 hfitting).1
      exact hpast.count_running_le (Nat.le_max_right _ _) (hbefore ▸ Nat.le_max_left _ _)
    · rintro e rest rfl
      have hfits := hfitting.event
      rwa [Option.or_none] at hfits
  · intro limit members callables hc stack request query hq hlead s
    rw [Stack.ask_eq, hq]
    exact Stack.query_of_circular hc stack query hlead s

/-- A host whose callables all ask for themselves again. -/
def Host.again : Host Unit where
  call _ member _ stack := .ask stack (.resolve (.ofName member)) (Routine.ofAnswer .absent)

/-- A record with one callable and nothing else. -/
def Record.withCallable (id : String) : Record where
  identity := 0
  typeName := Record.defaultTypeName
  inspected := Thunk.pure ""
  hasCallable name := name = id
  hasProperty _ := false
  property _ := none

theorem Host.again_asksWithin (bound : Nat) : again.AsksWithin bound := by
  intro _ _ _ stack hb
  refine ⟨hb, fun answer => ?_⟩
  match answer with
  | .ok (some _) | .ok none | .error _ => trivial

theorem Host.again_circular {stack : Stack} {r : Record} {id : String}
    (hfound : Found.first id stack.frames = .callable r) :
    again.Circular stack.maxDepth (· = stack) fun r' id' => r' = r ∧ id' = id where
  limit _ h := congrArg Stack.maxDepth h
  relapses := by
    rintro _ rfl _ _ ⟨rfl, rfl⟩ args
    refine .again ⟨rfl, _, _, ⟨rfl, rfl⟩, ?_⟩ fun e => rfl
    exact ⟨rfl, Or.inl ⟨rfl, hfound⟩⟩

theorem Stack.ask_within_eight :
    (∀ levels, 8 < levels →
      (Lookup.answer Host.again levels ⟨[.record (.withCallable "again")], 8⟩
        (.find "again" [])).run { state := () } =
      some (Stack.ask Host.again ⟨[.record (.withCallable "again")], 8⟩ (.find "again" [])
        { state := () })) ∧
    (Stack.ask Host.again ⟨[.record (.withCallable "again")], 8⟩ (.find "again" [])
      { state := () }).1 = .error (.depthExceeded 8) := by
  let stack : Stack := ⟨[.record (.withCallable "again")], 8⟩
  have hfound : Found.first "again" stack.frames = .callable (.withCallable "again") := rfl
  obtain ⟨hall, hcircular⟩ := Stack.ask_within (Host.again_asksWithin 8)
  obtain ⟨hlevels, -⟩ := hall stack (.find "again" []) { state := () } (by decide)
  refine ⟨hlevels _ rfl, ?_⟩
  exact hcircular 8 _ _ (Host.again_circular hfound) stack (.find "again" []) (.find "again" [])
    rfl ⟨rfl, _, _, ⟨rfl, rfl⟩, rfl, hfound⟩ { state := () }

end TagScope
