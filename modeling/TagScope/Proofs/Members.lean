/-
# What a name leads to

What a scope has under a name can be seen without calling anything: nothing, a
value that is stored there, or a callable (`Value.found`). The first scope that
has something decides (`Found.first`), and only then is a callable called. So
looking a name up, in one scope or in a stack, is to see what it leads to and
to fetch that.

Key definitions: `Found`, `Value.found`, `Found.first`, `Lookup.fetch`, `Lookup.Fails`.
Key theorems: `Lookup.member_eq_fetch`, `Lookup.findIn_eq_fetch`.
-/
import TagScope.Proofs.Levels

namespace TagScope

variable {σ α β : Type}

/-! ### Running one step after the other -/

namespace Lookup

/-- The lookup ends with this error. -/
def Fails (e : LookupError) (m : Lookup σ α) (s : Session σ) : Prop :=
  ∃ s', m.run s = some (.error e, s')

variable {e : LookupError} {s s' : Session σ}

/-- Two lookups, one after the other, end where the second does, or the first if
that fails. -/
theorem run_bind_eq_some {m : Lookup σ α} {f : α → Lookup σ β} {r : Except LookupError β} :
    (m >>= f).run s = some (r, s') ↔
      (∃ a t, m.run s = some (.ok a, t) ∧ (f a).run t = some (r, s')) ∨
      ∃ e, m.run s = some (.error e, s') ∧ r = .error e := by
  refine Run.bind_eq_some.trans ⟨?_, ?_⟩
  · rintro ⟨a | e, t, hm, hf⟩
    · obtain ⟨rfl, rfl⟩ := Prod.mk.inj (Option.some.inj hf)
      exact Or.inr ⟨_, hm, rfl⟩
    · exact Or.inl ⟨_, t, hm, hf⟩
  · rintro (⟨a, t, hm, hf⟩ | ⟨e, hm, rfl⟩)
    · exact ⟨_, t, hm, hf⟩
    · exact ⟨_, s', hm, rfl⟩

theorem Fails.bind {m : Lookup σ α} (hm : Fails e m s) (f : α → Lookup σ β) :
    Fails e (m >>= f) s := by
  obtain ⟨s', hm⟩ := hm
  exact ⟨s', run_bind_of_error hm f⟩

theorem Fails.bind_of_ok {m : Lookup σ α} {a : α} (hm : m.run s = some (.ok a, s'))
    {f : α → Lookup σ β} (hf : Fails e (f a) s') : Fails e (m >>= f) s := by
  obtain ⟨s'', hf⟩ := hf
  refine ⟨s'', ?_⟩
  rw [run_bind_of_ok hm, hf]

/-- A guard fails at its limit, and below the limit if what it guards fails with
the error of that limit. -/
theorem Fails.guarded {limit : UInt64} {body : Lookup σ α}
    (h : s.depth < limit.toNat → Fails (.depthExceeded limit) body s.enter) :
    Fails (.depthExceeded limit) (Lookup.guarded limit body) s := by
  unfold Fails
  show ∃ s', (if s.depth < limit.toNat then _ else _) = _
  by_cases hl : s.depth < limit.toNat
  · obtain ⟨s', hs'⟩ := h hl
    refine ⟨s'.leave, ?_⟩
    rw [if_pos hl, hs']
    rfl
  · exact ⟨s.note (.refused limit), if_neg hl⟩

theorem Fails.tracked {activity : Activity} {body : Lookup σ α}
    (h : Fails e body (s.began activity)) : Fails e (Lookup.tracked activity body) s := by
  obtain ⟨s', hs'⟩ := h
  refine ⟨s'.ended activity, ?_⟩
  show (body.run _).map _ = _
  rw [hs']
  rfl

end Lookup

/-! ### What is there -/

/-- What a name leads to, before anything is called. -/
inductive Found where
  | nothing
  /-- A value that is stored under the name. -/
  | stored (v : Value)
  /-- A callable of that name, of this record. -/
  | callable (r : Record)

/-- What may be stored. -/
def Found.ofOption : Option Value → Found
  | none => .nothing
  | some v => .stored v

/-- What a scope has under a name: a callable before a property, and a property
only if it is not empty. -/
def Value.found (scope : Value) (id : String) : Found :=
  match scope.frame? with
  | none => .nothing
  | some (.mapping entries) => .ofOption (entries.lookup id)
  | some (.sequence items) => .ofOption ((index? id).bind fun i => items[i]?)
  | some (.record r) =>
    if r.hasCallable id then .callable r
    else if r.hasProperty id then .ofOption (r.property id)
    else .nothing

/-- What the first scope that has something has under a name. -/
def Found.first (id : String) : List Value → Found
  | [] => .nothing
  | scope :: outer =>
    match scope.found id with
    | .nothing => first id outer
    | found => found

namespace Lookup

section

variable (host : Host σ) (answer : Stack → Query → Lookup σ (Option Value)) (stack : Stack)
  (id : String) (args : List Passed)

theorem run_call {r : Record} {member : String} {values : List Value} {s s' : Session σ}
    {outcome : Except Failure Value}
    (h : (host.call r member values stack).run answer (s.began (.call stack member values)) =
      some (outcome, s')) :
    (call host answer stack r member values).run s =
      some (outcome.mapError (·.escape member), s'.ended (.call stack member values)) := by
  show Option.map _ (Option.bind (Option.bind _ _) _) = _
  rw [h]
  cases outcome <;> rfl

/-- Calls a callable that a name has led to. -/
def invoke (r : Record) : Lookup σ Value := do
  let values ← receive args
  call host answer stack r id values

/-- Fetches what a name has led to. -/
def fetch : Found → Lookup σ (Option Value)
  | .nothing => return none
  | .stored v => return some v
  | .callable r => guarded stack.maxDepth do
    return some (← invoke host answer stack id args r)

theorem fetch_ofOption (found : Option Value) :
    fetch host answer stack id args (.ofOption found) = pure found := by
  cases found <;> rfl

theorem run_fetch_stored (v : Value) (s : Session σ) :
    (fetch host answer stack id args (.stored v)).run s = some (.ok (some v), s) := rfl

/-- **In one scope** what the name leads to is fetched. -/
theorem member_eq_fetch (scope : Value) :
    member host answer stack scope id args =
      fetch host answer stack id args (scope.found id) := by
  unfold member Value.found
  cases scope.frame? with
  | none => rfl
  | some frame =>
    cases frame with
    | mapping entries => exact (fetch_ofOption ..).symm
    | sequence items => exact (fetch_ofOption ..).symm
    | record r =>
      dsimp only
      by_cases hc : r.hasCallable id = true
      · rw [if_pos hc, if_pos hc]
        simp only [fetch, invoke, bind_assoc]
      · rw [if_neg hc, if_neg hc]
        by_cases hp : r.hasProperty id = true
        · rw [if_pos hp, if_pos hp]
          exact (fetch_ofOption ..).symm
        · rw [if_neg hp, if_neg hp]
          rfl

/-- A guarded call that gives a value back is not gone on from. -/
theorem guarded_bind_some {limit : UInt64} (m : Lookup σ Value) (k : Lookup σ (Option Value)) :
    (guarded limit (do return some (← m)) >>= fun
      | some v => return some v
      | none => k) = guarded limit (do return some (← m)) := by
  refine funext fun s => ?_
  show Option.bind (if s.depth < limit.toNat then ((m.run s.enter).bind _).map _ else _) _ =
    (if s.depth < limit.toNat then ((m.run s.enter).bind _).map _ else _)
  by_cases hl : s.depth < limit.toNat
  · rw [if_pos hl]
    cases m.run s.enter with
    | none => rfl
    | some r =>
      obtain ⟨result, s'⟩ := r
      cases result <;> rfl
  · rw [if_neg hl]
    rfl

/-- **In scopes** what the name leads to first is fetched. -/
theorem findIn_eq_fetch : ∀ scopes : List Value,
    findIn host answer stack id args scopes =
      fetch host answer stack id args (Found.first id scopes)
  | [] => rfl
  | scope :: outer => by
    rw [findIn, member_eq_fetch, Found.first]
    cases scope.found id with
    | nothing =>
      have ih := findIn_eq_fetch outer
      simp only [fetch, pure_bind]
      exact ih
    | stored v => simp only [fetch, pure_bind]
    | callable r => exact guarded_bind_some ..

end

end Lookup

end TagScope
