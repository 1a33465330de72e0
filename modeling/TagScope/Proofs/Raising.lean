/-
# Raising the limit

The limit of a stack decides one thing, whether a path resolution or a call is
refused. Callables that do not look at it pass it on with every stack that they
make of the one they are given (`Host.BlindToLimit`), so a lookup on a stack with
another limit is the same lookup with the other limit in all its guards
(`Routine.run_withLimit`). A guard that lets something begin lets it begin with a
higher limit too, and from there on the two lookups go the same way: the one with
the higher limit follows the other (`Lookup.follows_answer_withMaxDepth`). Where
nothing is refused, raising the limit changes nothing.

Key definitions: `Routine.withLimit`, `Host.BlindToLimit`.
Key theorems: `Lookup.follows_answer_withMaxDepth`, `Stack.ask_withMaxDepth`.
-/
import TagScope.Proofs.Alike
import TagScope.Proofs.Limit

namespace TagScope

variable {σ : Type}

/-! ### Callables that do not look at the limit -/

namespace Routine

/-- The routine with this limit for all stacks that it asks. -/
def withLimit (limit : UInt64) : Routine σ → Routine σ
  | .done v => .done v
  | .fail f => .fail f
  | .ask stack query next =>
    .ask (stack.withMaxDepth limit) query fun answer => withLimit limit (next answer)
  | .build items next => .build items fun v => withLimit limit (next v)
  | .depth next => .depth fun n => withLimit limit (next n)
  | .read next => .read fun state => withLimit limit (next state)
  | .write state next => .write state (withLimit limit next)

@[simp] theorem withLimit_ofAnswer (limit : UInt64) (missing : Value)
    (answer : Except LookupError (Option Value)) :
    (ofAnswer missing answer : Routine σ).withLimit limit = ofAnswer missing answer := by
  match answer with
  | .ok (some _) | .ok none | .error _ => rfl

/-- **With another limit** the same questions are put to stacks with that limit. -/
theorem run_withLimit (limit : UInt64) (answer : Stack → Query → Lookup σ (Option Value)) :
    ∀ r : Routine σ, (r.withLimit limit).run answer =
      r.run fun stack => answer (stack.withMaxDepth limit)
  | .done _ | .fail _ => rfl
  | .ask _ _ next => bind_congr fun result => run_withLimit limit answer (next result)
  | .build _ next => bind_congr fun v => run_withLimit limit answer (next v)
  | .depth next => bind_congr fun s => run_withLimit limit answer (next s.depth)
  | .read next => bind_congr fun s => run_withLimit limit answer (next s.state)
  | .write _ next => bind_congr fun _ => run_withLimit limit answer next

end Routine

/-- Callables make the stacks that they ask from the one they are given, by entering
and leaving scopes, and do not look at its limit: given a stack with another limit,
they do the same on stacks with that limit. -/
def Host.BlindToLimit (host : Host σ) : Prop :=
  ∀ r member values (stack : Stack) (limit : UInt64),
    host.call r member values (stack.withMaxDepth limit) =
      (host.call r member values stack).withLimit limit

/-! ### Two limits -/

namespace Lookup

open Run Session

variable {host : Host σ} (hh : host.BlindToLimit) {limit limit' : UInt64} (hlimit : limit ≤ limit')

include hh hlimit

theorem sideBySide_withMaxDepth {answer : Stack → Query → Lookup σ (Option Value)}
    (h : ∀ stack query, Follows (answer (Stack.withMaxDepth stack limit) query).run
      (answer (stack.withMaxDepth limit') query).run) (stack : Stack) :
    SideBySide Follows host answer answer (stack.withMaxDepth limit)
      (stack.withMaxDepth limit') where
  sequential := Follows.congruence.sequential
  receive := Follows.congruence.receive
  frames := rfl
  guarded hm := .guarded Alike.coupling hlimit hm
  resolution hm := .tracked Alike.coupling (by rfl) hm
  call r member values := by
    refine Follows.congruence.sequential.call_of_run (.tracked Alike.coupling (by rfl)) ?_
    rw [hh, hh, Routine.run_withLimit, Routine.run_withLimit]
    exact Follows.congruence.run h (host.call r member values stack)

/-- **A lookup with a higher limit** goes the way of the one with the lower limit. -/
theorem follows_answer_withMaxDepth : ∀ (levels : Nat) (stack : Stack) (query : Query),
    Follows (answer host levels (stack.withMaxDepth limit) query).run
      (answer host levels (stack.withMaxDepth limit') query).run
  | 0, _, _ => fun _ _ _ h => absurd h (by simp [answer, exhausted])
  | levels + 1, stack, query =>
    have ih := follows_answer_withMaxDepth levels
    .tracked Alike.coupling (by rfl)
      ((sideBySide_withMaxDepth hh hlimit ih stack).step (fun p => ih stack (.resolve p)) query)

end Lookup

namespace Stack

variable {host : Host σ}

theorem query_withMaxDepth (hh : host.BlindToLimit) {stack : Stack} {limit : UInt64}
    (hlimit : stack.maxDepth ≤ limit) (query : Query) {s : Session σ}
    (hs : (stack.query host query s).2.refusals = s.refusals) :
    ((stack.withMaxDepth limit).query host query s).1 = (stack.query host query s).1 ∧
      Session.Alike (stack.query host query s).2
        ((stack.withMaxDepth limit).query host query s).2 := by
  obtain ⟨-, hfollows⟩ := Lookup.follows_answer_withMaxDepth hh hlimit s.levels stack query s _ _
    (stack.answer_levels host s)
  obtain ⟨t, ht, halike⟩ := hfollows hs s (.refl s)
  rw [query_eq_of_answer ht]
  exact ⟨rfl, halike⟩

/-- **Raising the limit changes nothing** for what stayed within it. Where callables
do not look at the limit and no depth check fails on a stack, what is asked of the
stack with a higher limit has the same outcome, the same callables are called with
the same arguments in the same order, they leave the host in the same state, and
again no depth check fails. -/
theorem ask_withMaxDepth (hh : host.BlindToLimit) {stack : Stack} {limit : UInt64}
    (hlimit : stack.maxDepth ≤ limit) (request : Request) {s : Session σ}
    (hs : (stack.ask host request s).2.refusals = s.refusals) :
    ((stack.withMaxDepth limit).ask host request s).1 = (stack.ask host request s).1 ∧
      ((stack.withMaxDepth limit).ask host request s).2.calls =
        (stack.ask host request s).2.calls ∧
      ((stack.withMaxDepth limit).ask host request s).2.state =
        (stack.ask host request s).2.state ∧
      ((stack.withMaxDepth limit).ask host request s).2.refusals = s.refusals := by
  rw [ask_eq] at hs ⊢
  rw [ask_eq]
  cases hq : request.query with
  | error e => exact ⟨rfl, rfl, rfl, rfl⟩
  | ok query =>
    rw [hq] at hs
    obtain ⟨houtcome, halike⟩ := query_withMaxDepth hh hlimit query hs
    exact ⟨houtcome, halike.calls.symm, halike.state.symm, halike.refusals.symm.trans hs⟩

end Stack

/-- A host with a callable that counts how often it has been called. All others look
it up, with their first argument as one more scope. -/
def Host.counting : Host Nat where
  call _ member values stack :=
    if member = "count" then .read fun n => .write (n + 1) (.done (.text "counted"))
    else .ask (stack.push (values.headD .null)) (.resolve (.ofName "count"))
      (Routine.ofAnswer .absent)

theorem Host.counting_blindToLimit : counting.BlindToLimit := by
  intro r member values stack limit
  by_cases hm : member = "count"
  · simp [counting, hm, Routine.withLimit]
  · simp only [counting, if_neg hm, Routine.withLimit, Routine.withLimit_ofAnswer]
    rfl

namespace Stack

/-- A stack with the callable that counts and one that asks for it, on which four
resolutions and calls may be in progress. -/
def counting : Stack where
  frames := [.record (.withCallable "again"), .record (.withCallable "count")]
  maxDepth := 4

/-- Four of them are all that is needed. -/
theorem ask_withMaxDepth_counting :
    ((counting.withMaxDepth 64).ask Host.counting (.resolve (.ofName "again")) { state := 0 }).1 =
      (counting.ask Host.counting (.resolve (.ofName "again")) { state := 0 }).1 ∧
    (counting.ask Host.counting (.resolve (.ofName "again")) { state := 0 }).1 =
      .ok (some (.text "counted")) ∧
    ((counting.withMaxDepth 64).ask Host.counting (.resolve (.ofName "again"))
      { state := 0 }).2.calls = [("again", []), ("count", [])] := by
  obtain ⟨t, ht, hcalls, hrefusals⟩ : ∃ t,
      (Lookup.answer Host.counting 2 counting (.resolve (.ofName "again"))).run { state := 0 } =
        some (.ok (some (.text "counted")), t) ∧
      t.calls = [("again", []), ("count", [])] ∧ t.refusals = [] := ⟨_, rfl, rfl, rfl⟩
  have hquery : counting.ask Host.counting (.resolve (.ofName "again")) { state := 0 } = _ :=
    query_eq_of_answer ht
  have hwithin : (counting.ask Host.counting (.resolve (.ofName "again"))
      { state := 0 }).2.refusals = Session.refusals { state := 0 } := by
    rw [hquery, hrefusals]
    rfl
  have hlimit : counting.maxDepth ≤ 64 := by decide
  obtain ⟨houtcome, hsame, -⟩ := ask_withMaxDepth Host.counting_blindToLimit hlimit
    (.resolve (.ofName "again")) hwithin
  refine ⟨houtcome, congrArg Prod.fst hquery, ?_⟩
  rw [hsame, hquery, hcalls]

end Stack

end TagScope
