/-
# The innermost scope that shows a name decides

Whether a scope shows a name is a matter of presence (`Value.Exposes`): a map
shows its keys whatever they stand for, a list the decimal texts of its indices,
a record its callables and those properties that read as something. Nothing is
looked up but in the innermost scope that shows the name. If it has a callable
of that name, this one is called, once, with the arguments as they are, and what
it ends with is the answer, for better or worse. Else the answer is what is
stored there (`Stack.tryFind_decided`).

So where no callable decides, neither the scopes further out count nor those that
do not show the name, wherever they stand.

Key definitions: `Value.Exposes`, `Value.HasCallable`, `Value.Stores`.
Key theorems: `Value.found_eq_nothing_iff`, `Found.first_of_exposes`,
`Stack.tryFind_of_callable`, `Stack.tryFind_decided`.
-/
import TagScope.Proofs.Alike
import TagScope.Proofs.Encounters

namespace TagScope

variable {σ : Type}

/-! ### What a scope shows -/

theorem index?_eq_some_iff {id : String} {n : Nat} : index? id = some n ↔ id = toString n := by
  have htext : (toString n).toList = Nat.toDigits 10 n := Nat.toList_repr
  unfold index?
  constructor
  · intro h
    obtain ⟨hdigits, hvalue⟩ := Option.ite_none_right_eq_some.1 h
    rw [Option.some.inj hvalue] at hdigits
    exact String.toList_injective (hdigits.symm.trans htext.symm)
  · rintro rfl
    rw [htext, Nat.ofDigitChars_ten_toDigits]
    exact if_pos rfl

namespace Value

/-- Whether a scope shows a name. Scalars show none. -/
def Exposes (scope : Value) (id : String) : Prop :=
  match scope with
  | .record r => r.hasCallable id = true ∨ r.hasProperty id = true ∧ ∃ v, r.property id = some v
  | .map _ entries => id ∈ entries.map Prod.fst
  | .list _ items => ∃ n < items.length, id = toString n
  | _ => False

/-- Whether a scope has a callable of this name. -/
def HasCallable (scope : Value) (id : String) : Prop :=
  match scope with
  | .record r => r.hasCallable id = true
  | _ => False

/-- Whether a scope stores the value `v` under a name: as a property, as what a key
stands for, or as an item. -/
def Stores (scope : Value) (id : String) (v : Value) : Prop :=
  match scope with
  | .record r => r.hasProperty id = true ∧ r.property id = some v
  | .map _ entries => entries.lookup id = some v
  | .list _ items => ∃ n : Nat, id = toString n ∧ items[n]? = some v
  | _ => False

variable {scope v : Value} {id : String} {r : Record}

theorem exposes_iff : scope.Exposes id ↔ scope.HasCallable id ∨ ∃ v, scope.Stores id v := by
  cases scope with
  | record r => simp [Exposes, HasCallable, Stores]
  | map identity entries =>
    simp only [Exposes, HasCallable, Stores, false_or, ← Option.isSome_iff_exists,
      List.lookup_isSome_iff, List.mem_map, beq_iff_eq]
    exact exists_congr fun entry => and_congr_right fun _ => eq_comm
  | list identity items =>
    simp only [Exposes, HasCallable, Stores, false_or]
    constructor
    · rintro ⟨n, hn, rfl⟩
      exact ⟨items[n], n, rfl, List.getElem?_eq_getElem hn⟩
    · rintro ⟨v, n, rfl, hv⟩
      exact ⟨n, (List.getElem?_eq_some_iff.1 hv).1, rfl⟩
  | _ => simp [Exposes, HasCallable, Stores]

theorem ofOption_eq_stored_iff {found : Option Value} :
    Found.ofOption found = .stored v ↔ found = some v := by
  cases found <;> simp [Found.ofOption]

theorem ofOption_ne_callable (found : Option Value) : Found.ofOption found ≠ .callable r := by
  cases found <;> simp [Found.ofOption]

theorem found_eq_callable_iff :
    scope.found id = .callable r ↔ scope = .record r ∧ scope.HasCallable id := by
  cases scope with
  | record r' =>
    simp only [found, frame?, Value.record.injEq, HasCallable]
    by_cases hc : r'.hasCallable id = true
    · simp [hc]
    · by_cases hp : r'.hasProperty id = true
      · simp [hc, hp, ofOption_ne_callable]
      · simp [hc, hp]
  | map identity entries => simp [found, frame?, ofOption_ne_callable]
  | list identity items => simp [found, frame?, ofOption_ne_callable]
  | _ => simp [found, frame?]

theorem hasCallable_iff : scope.HasCallable id ↔ ∃ r, scope.found id = .callable r := by
  simp only [found_eq_callable_iff]
  constructor
  · intro h
    cases scope with
    | record r => exact ⟨r, rfl, h⟩
    | _ => exact h.elim
  · rintro ⟨r, -, h⟩
    exact h

theorem found_eq_stored_iff :
    scope.found id = .stored v ↔ ¬ scope.HasCallable id ∧ scope.Stores id v := by
  cases scope with
  | record r =>
    simp only [found, frame?, HasCallable, Stores]
    by_cases hc : r.hasCallable id = true
    · simp [hc]
    · by_cases hp : r.hasProperty id = true
      · simp [hc, hp, ofOption_eq_stored_iff]
      · simp [hc, hp]
  | map identity entries => simp [found, frame?, ofOption_eq_stored_iff, HasCallable, Stores]
  | list identity items =>
    simp only [found, frame?, ofOption_eq_stored_iff, HasCallable, Stores,
      Option.bind_eq_some_iff, index?_eq_some_iff, not_false_eq_true, true_and]
  | _ => simp [found, frame?, Stores]

/-- **A name leads to nothing** exactly in a scope that does not show it. -/
theorem found_eq_nothing_iff : scope.found id = .nothing ↔ ¬ scope.Exposes id := by
  rw [exposes_iff]
  constructor
  · rintro h (hc | ⟨v, hv⟩)
    · obtain ⟨r, hr⟩ := hasCallable_iff.1 hc
      simp [h] at hr
    · by_cases hc : scope.HasCallable id
      · obtain ⟨r, hr⟩ := hasCallable_iff.1 hc
        simp [h] at hr
      · have hstored := found_eq_stored_iff.2 ⟨hc, hv⟩
        simp [h] at hstored
  · intro hnot
    cases h : scope.found id with
    | nothing => rfl
    | stored v => exact absurd (Or.inr ⟨v, (found_eq_stored_iff.1 h).2⟩) hnot
    | callable r => exact absurd (Or.inl (found_eq_callable_iff.1 h).2) hnot

end Value

/-! ### The scope that decides -/

namespace Found

variable {id : String} {scope : Value} {inner outer : List Value}

theorem first_eq_nothing_iff : ∀ {scopes : List Value},
    first id scopes = .nothing ↔ ∀ scope ∈ scopes, ¬ scope.Exposes id
  | [] => by simp [first]
  | scope :: outer => by
    rw [List.forall_mem_cons, ← Value.found_eq_nothing_iff, ← first_eq_nothing_iff, first]
    cases scope.found id <;> simp

/-- **The innermost scope that shows a name decides** what the name leads to. -/
theorem first_of_exposes (hscope : scope.Exposes id) : ∀ {inner : List Value},
    (∀ other ∈ inner, ¬ other.Exposes id) → first id (inner ++ scope :: outer) = scope.found id
  | [], _ => by
    have hfound : scope.found id ≠ .nothing := fun h => Value.found_eq_nothing_iff.1 h hscope
    rw [List.nil_append, first]
    cases h : scope.found id with
    | nothing => exact absurd h hfound
    | stored v => rfl
    | callable r => rfl
  | other :: inner, hinner => by
    obtain ⟨hother, hinner⟩ := List.forall_mem_cons.1 hinner
    rw [List.cons_append, first, Value.found_eq_nothing_iff.2 hother]
    exact first_of_exposes hscope hinner

end Found

/-! ### What is found -/

namespace Stack

variable (host : Host σ) (stack : Stack) (id : String) (args : List Value) (s : Session σ)

theorem tryFind_eq_fetch : ∃ result t,
    (Lookup.fetch host (Lookup.whole host) stack id (args.map .value)
      (Found.first id stack.frames)).run (s.began (.question stack (some id))) =
        some (result, t) ∧
    stack.tryFind host id args s = (result, t.ended (.question stack (some id))) := by
  obtain ⟨result, t, hstep, hquery⟩ :=
    Lookup.run_tracked_eq_some.1 (@query_eq σ host stack (.find id args) s)
  rw [Lookup.step, Lookup.findIn_eq_fetch] at hstep
  exact ⟨result, t, hstep, hquery⟩

variable {host stack id args s}

theorem tryFind_of_nothing (h : Found.first id stack.frames = .nothing) :
    (stack.tryFind host id args s).1 = .ok none ∧
      (stack.tryFind host id args s).2.calls = s.calls := by
  obtain ⟨result, t, hfetch, hquery⟩ := tryFind_eq_fetch host stack id args s
  rw [h, Lookup.fetch, Lookup.run_pure] at hfetch
  obtain ⟨rfl, rfl⟩ := Prod.mk.inj (Option.some.inj hfetch)
  rw [hquery]
  exact ⟨rfl, by simp [Activity.call?]⟩

theorem tryFind_of_stored {v : Value} (h : Found.first id stack.frames = .stored v) :
    (stack.tryFind host id args s).1 = .ok (some v) ∧
      (stack.tryFind host id args s).2.calls = s.calls := by
  obtain ⟨result, t, hfetch, hquery⟩ := tryFind_eq_fetch host stack id args s
  rw [h, Lookup.run_fetch_stored] at hfetch
  obtain ⟨rfl, rfl⟩ := Prod.mk.inj (Option.some.inj hfetch)
  rw [hquery]
  exact ⟨rfl, by simp [Activity.call?]⟩

/-- **A callable is called once**, with the arguments as they are, and the lookup
ends as its routine does. -/
theorem tryFind_of_callable {r : Record} (h : Found.first id stack.frames = .callable r)
    (hl : s.depth < stack.maxDepth.toNat) : ∃ u outcome t,
      u.calls = s.calls ++ [(id, args)] ∧ u.depth = s.depth + 1 ∧ u.state = s.state ∧
      (host.call r id args stack).run (Lookup.whole host) u = some (outcome, t) ∧
      (stack.tryFind host id args s).1 = (outcome.map some).mapError (·.escape id) ∧
      (stack.tryFind host id args s).2.calls = t.calls := by
  let s₁ := s.began (.question stack (some id))
  let u := s₁.enter.began (.call stack id args)
  obtain ⟨outcome, t, hrun, -⟩ := Routine.logged_run host (host.call r id args stack) [] u
  have hcalls : u.calls = s.calls ++ [(id, args)] := by simp [u, s₁, Activity.call?]
  refine ⟨u, outcome, t, hcalls, rfl, rfl, hrun, ?_⟩
  have hinvoke : (Lookup.invoke host (Lookup.whole host) stack id (args.map .value) r).run
      s₁.enter = some (outcome.mapError (·.escape id), t.ended (.call stack id args)) := by
    rw [Lookup.invoke, Lookup.run_bind_of_ok (Lookup.run_receive_map_value ..),
      Lookup.run_call _ _ _ hrun]
  have hbody : (do return some (← Lookup.invoke host (Lookup.whole host) stack id
      (args.map .value) r) : Lookup σ (Option Value)).run s₁.enter =
        some ((outcome.map some).mapError (·.escape id), t.ended (.call stack id args)) := by
    cases outcome with
    | ok v => exact Lookup.run_bind_of_ok hinvoke _
    | error failure => exact Lookup.run_bind_of_error hinvoke _
  obtain ⟨result, t', hfetch, hquery⟩ := tryFind_eq_fetch host stack id args s
  have hguarded : (Lookup.guarded stack.maxDepth (do
      return some (← Lookup.invoke host (Lookup.whole host) stack id (args.map .value) r))).run
        s₁ = some ((outcome.map some).mapError (·.escape id),
          (t.ended (.call stack id args)).leave) :=
    Lookup.run_guarded_eq_some.2 (Or.inl ⟨hl, _, _, hbody, rfl⟩)
  rw [h, Lookup.fetch, hguarded] at hfetch
  obtain ⟨rfl, rfl⟩ := Prod.mk.inj (Option.some.inj hfetch)
  rw [hquery]
  exact ⟨rfl, by simp⟩

theorem tryFind_of_limit {r : Record} (h : Found.first id stack.frames = .callable r)
    (hl : ¬ s.depth < stack.maxDepth.toNat) :
    (stack.tryFind host id args s).1 = .error (.depthExceeded stack.maxDepth) ∧
      (stack.tryFind host id args s).2.calls = s.calls := by
  obtain ⟨result, t, hfetch, hquery⟩ := tryFind_eq_fetch host stack id args s
  rw [h, Lookup.fetch] at hfetch
  rcases Lookup.run_guarded_eq_some.1 hfetch with ⟨hlt, -⟩ | ⟨-, hr⟩
  · exact absurd hlt hl
  · obtain ⟨rfl, rfl⟩ := Prod.mk.inj hr
    rw [hquery]
    exact ⟨rfl, by simp [Activity.call?]⟩

variable (host stack id args s)

/-- **Only the innermost scope that shows a name is looked at.** Nothing is found
exactly where no scope shows the name, and then nothing is called. Otherwise the
innermost scope that shows it decides. If it has a callable of that name, this one
is called, once and with the arguments as they are, and the lookup ends with what
it gives back or fails with; at the limit it is not called, and that is the error.
If it has none, what it stores is found, and nothing is called; and so it is on any
other stack where this scope decides, whatever else is there. -/
theorem tryFind_decided :
    ((stack.tryFind host id args s).1 = .ok none ↔
      ∀ scope ∈ stack.frames, ¬ scope.Exposes id) ∧
    ((∀ scope ∈ stack.frames, ¬ scope.Exposes id) →
      (stack.tryFind host id args s).2.calls = s.calls) ∧
    ∀ inner scope outer, stack.frames = inner ++ scope :: outer →
      (∀ other ∈ inner, ¬ other.Exposes id) → scope.Exposes id →
      (∀ r, scope = .record r → r.hasCallable id = true →
        (s.depth < stack.maxDepth.toNat → ∃ u outcome t,
          u.calls = s.calls ++ [(id, args)] ∧ u.depth = s.depth + 1 ∧ u.state = s.state ∧
          (host.call r id args stack).run (Lookup.whole host) u = some (outcome, t) ∧
          (stack.tryFind host id args s).1 = (outcome.map some).mapError (·.escape id) ∧
          (stack.tryFind host id args s).2.calls = t.calls) ∧
        (¬ s.depth < stack.maxDepth.toNat →
          (stack.tryFind host id args s).1 = .error (.depthExceeded stack.maxDepth) ∧
          (stack.tryFind host id args s).2.calls = s.calls)) ∧
      (¬ scope.HasCallable id → ∃ v, scope.Stores id v ∧
        ∀ (stack' : Stack) (s' : Session σ) inner' outer',
          stack'.frames = inner' ++ scope :: outer' → (∀ other ∈ inner', ¬ other.Exposes id) →
          (stack'.tryFind host id args s').1 = .ok (some v) ∧
          (stack'.tryFind host id args s').2.calls = s'.calls) := by
  refine ⟨⟨fun h => ?_, fun h => ?_⟩, fun h => ?_, ?_⟩
  · rw [← Found.first_eq_nothing_iff]
    cases hfirst : Found.first id stack.frames with
    | nothing => rfl
    | stored v =>
      rw [(tryFind_of_stored hfirst).1] at h
      simp at h
    | callable r =>
      by_cases hl : s.depth < stack.maxDepth.toNat
      · obtain ⟨u, outcome, t, -, -, -, -, hresult, -⟩ :=
          @tryFind_of_callable _ host _ _ args _ _ hfirst hl
        rw [hresult] at h
        cases outcome <;> simp [Except.map, Except.mapError] at h
      · rw [(tryFind_of_limit hfirst hl).1] at h
        simp at h
  · exact (tryFind_of_nothing (Found.first_eq_nothing_iff.2 h)).1
  · exact (tryFind_of_nothing (Found.first_eq_nothing_iff.2 h)).2
  · intro inner scope outer hframes hinner hscope
    have hfirst : Found.first id stack.frames = scope.found id := by
      rw [hframes]
      exact Found.first_of_exposes hscope hinner
    refine ⟨?_, fun hnone => ?_⟩
    · rintro r rfl hc
      rw [Value.found_eq_callable_iff.2 ⟨rfl, hc⟩] at hfirst
      exact ⟨tryFind_of_callable hfirst, tryFind_of_limit hfirst⟩
    · obtain ⟨v, hv⟩ := (Value.exposes_iff.1 hscope).resolve_left hnone
      refine ⟨v, hv, fun stack' s' inner' outer' hframes' hinner' => tryFind_of_stored ?_⟩
      rw [hframes', Found.first_of_exposes hscope hinner']
      exact Value.found_eq_stored_iff.2 ⟨hnone, hv⟩

/-- Two scopes that do not show `a`, though the record says that it has one, a map where
`a` stands for nothing, and a record with another `a`. -/
def hidden : Stack where
  frames := [.int 1, .record ⟨0, "ghost", "ghost", fun _ => false, fun _ => true, fun _ => none⟩,
    .map 1 [("a", .null)],
    .record ⟨2, "outer", "outer", fun _ => true, fun _ => false, fun _ => none⟩]

/-- The key decides, for what it stands for. -/
theorem tryFind_decided_hidden :
    (hidden.tryFind Host.silent "a" [] { state := () }).1 = .ok (some .null) ∧
      (hidden.tryFind Host.silent "a" [] { state := () }).2.calls = [] := by
  have hinner : ∀ scope ∈ hidden.frames.take 2, ¬ scope.Exposes "a" := by
    simp [hidden, Value.Exposes]
  obtain ⟨-, -, hdecided⟩ := tryFind_decided Host.silent hidden "a" [] { state := () }
  obtain ⟨v, hv, hsame⟩ := (hdecided _ (.map 1 [("a", .null)]) _ rfl hinner
    (by simp [Value.Exposes])).2 id
  obtain rfl : Value.null = v := by simpa [Value.Stores] using hv
  exact hsame hidden { state := () } _ _ rfl hinner

end Stack

end TagScope
