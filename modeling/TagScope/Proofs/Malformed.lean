/-
# Lookups of malformed tags

Nothing is looked up for a malformed tag. So the error of a tag that is looked up
tells that nothing has run. But a lookup can also fail with the error of another
tag: a callable may read tags itself, and what it forwards is passed on as it is.
Then the tag that was looked up is well formed, and the callable has run
(`Stack.lookup_eq_malformed`).

Key theorems: `Stack.lookup_eq_malformed`, `Stack.malformed_after_call`.
-/
import TagScope.Proofs.Alike
import TagScope.Proofs.Faults
import TagScope.Proofs.Forwarding

namespace TagScope

variable {σ : Type}

theorem Session.Unwound.calls_eq {s t : Session σ} (h : Unwound s t) : t.calls = s.calls := by
  obtain ⟨events, hj, hends⟩ := h.journal
  have hnone : (events.reverse.filterMap Event.call?) = [] := by
    rw [List.filterMap_eq_nil_iff]
    intro e he
    have hend := hends e (List.mem_reverse.1 he)
    cases e with
    | ended | left => rfl
    | _ => exact hend.elim
  have hcalls : ∀ s : Session σ, s.calls = s.journal.reverse.filterMap Event.call? := fun _ => rfl
  rw [hcalls, hcalls, hj, List.reverse_append, List.filterMap_append, hnone, List.append_nil]

/-- Only the error of a lookup comes out of a callable as a malformed tag. -/
theorem Failure.eq_of_escape_eq_malformed {failure : Failure} {member : String} {e : SyntaxError}
    (h : .malformed e = failure.escape member) : failure = .lookup (.malformed e) := by
  cases failure with
  | lookup e' => exact congrArg Failure.lookup h.symm
  | plain => cases h
  | malformed => cases h

namespace Stack

theorem tryLookup_of_lookup_eq_error {host : Host σ} {stack : Stack} {tag : String}
    {s s' : Session σ} {e : LookupError} (h : stack.lookup host tag s = (.error e, s')) :
    stack.tryLookup host tag s = (.error e, s') := by
  unfold lookup at h
  have herror := orAbsent_eq_error_iff.1 (congrArg Prod.fst h)
  have hsession : (stack.tryLookup host tag s).2 = s' := congrArg Prod.snd h
  exact Prod.ext herror hsession

/-- **A malformed tag** is an error by itself, and nothing has run. Where the lookup
of a tag fails with the error of a malformed tag, either the tag is malformed, the
error points into it, and the session is as it was; or the tag is well formed, and
a callable has failed with this very error that the lookup called, or the lookup of
a path among its arguments. -/
theorem lookup_eq_malformed {host : Host σ} {stack : Stack} {tag : String} {s s' : Session σ}
    {e : SyntaxError} (h : stack.lookup host tag s = (.error (.malformed e), s') ∨
      stack.tryLookup host tag s = (.error (.malformed e), s')) :
    (Path.parse tag = .error e ∧ e.source = tag ∧ s' = s) ∨
    ∃ p, Path.parse tag = .ok p ∧ ∃ asked t r member values u v,
      Relays host (.malformed e) stack asked t stack (.resolve p) s ∧
      asked.Meets host stack t (.call r member values u) ∧
      (host.call r member values stack).run (Lookup.whole host)
        (u.began (.call stack member values)) = some (.error (.lookup (.malformed e)), v) := by
  replace h := h.elim tryLookup_of_lookup_eq_error id
  rw [tryLookup] at h
  cases hparse : Path.parse tag with
  | error e' =>
    simp only [hparse, Prod.mk.injEq, Except.error.injEq, LookupError.malformed.injEq] at h
    obtain ⟨rfl, rfl⟩ := h
    obtain ⟨fault, -, rfl⟩ := Path.parse_eq_error hparse
    exact Or.inl ⟨rfl, rfl, rfl⟩
  | ok p =>
    rw [hparse] at h
    rcases exists_called h with hlimit | ⟨asked, t, r, member, values, u, failure, v, hrelays,
      hmeets, hrun, he, -, -⟩
    · simp at hlimit
    · rw [Failure.eq_of_escape_eq_malformed he] at hrun
      exact Or.inr ⟨p, rfl, asked, t, r, member, values, u, v, hrelays, hmeets, hrun⟩

end Stack

/-! ### A callable that forwards such an error -/

/-- A host whose callables all look up a tag with an empty segment and forward the
error. -/
def Host.misreading : Host Unit where
  call _ _ _ stack := Routine.lookup stack "a..b" (Routine.ofAnswer .absent)

theorem Path.parse_empty_segment :
    Path.parse "a..b" = .error ⟨.emptySegment, ⟨2, 3⟩, "a..b"⟩ := by with_unfolding_all rfl

theorem Host.misreading_call (r : Record) (member : String) (values : List Value) (stack : Stack) :
    misreading.call r member values stack =
      .fail (.lookup (.malformed ⟨.emptySegment, ⟨2, 3⟩, "a..b"⟩)) := by
  show Routine.lookup stack "a..b" _ = _
  rw [Routine.lookup, Path.parse_empty_segment]
  rfl

namespace Stack

/-- A stack with a callable `f`. -/
def single : Stack where
  frames := [.record (.withCallable "f")]

theorem tryLookup_single : ∃ s',
    single.tryLookup Host.misreading "f" { state := () } =
      (.error (.malformed ⟨.emptySegment, ⟨2, 3⟩, "a..b"⟩), s') ∧ s'.calls = [("f", [])] := by
  have hparse : Path.parse "f" = .ok (.ofName "f") := by with_unfolding_all rfl
  let u : Session Unit := (Session.opened single { state := () }).enter
  have hmeets : (Query.resolve (.ofName "f")).Meets Host.misreading single { state := () }
      (.call (.withCallable "f") "f" [] u) :=
    .resolve (by decide) (.callable rfl rfl (by decide) rfl)
  have hrun : (Host.misreading.call (.withCallable "f") "f" [] single).run
      (Lookup.whole Host.misreading) (u.began (.call single "f" [])) =
      some (.error (.lookup (.malformed ⟨.emptySegment, ⟨2, 3⟩, "a..b"⟩)),
        u.began (.call single "f" [])) := by
    rw [Host.misreading_call]
    rfl
  obtain ⟨s', hquery, hunwound⟩ := hmeets.query_eq (.call hrun)
  refine ⟨s', ?_, hunwound.calls_eq⟩
  rw [tryLookup, hparse]
  exact hquery

/-- **A callable may have run** where a lookup fails with the error of a malformed
tag, and the tag that was looked up need not be the malformed one. -/
theorem malformed_after_call : ¬ ∀ (host : Host Unit) (stack : Stack) (tag : String)
    (s s' : Session Unit) (e : SyntaxError),
    stack.tryLookup host tag s = (.error (.malformed e), s') →
      s'.calls = s.calls ∧ e.source = tag := by
  intro h
  obtain ⟨s', hlookup, hcalls⟩ := tryLookup_single
  have hnone := (h _ _ _ _ _ _ hlookup).1
  rw [hcalls] at hnone
  simp [Session.calls] at hnone

/-- The error leads back to the callable that was called. -/
theorem lookup_eq_malformed_single : ∃ s', single.tryLookup Host.misreading "f" { state := () } =
      (.error (.malformed ⟨.emptySegment, ⟨2, 3⟩, "a..b"⟩), s') ∧
    ∃ p, Path.parse "f" = .ok p ∧ ∃ asked t r member values u v,
      Relays Host.misreading (.malformed ⟨.emptySegment, ⟨2, 3⟩, "a..b"⟩) single asked t single
        (.resolve p) { state := () } ∧
      asked.Meets Host.misreading single t (.call r member values u) ∧
      (Host.misreading.call r member values single).run (Lookup.whole Host.misreading)
        (u.began (.call single member values)) =
        some (.error (.lookup (.malformed ⟨.emptySegment, ⟨2, 3⟩, "a..b"⟩)), v) := by
  obtain ⟨s', hlookup, -⟩ := tryLookup_single
  refine ⟨s', hlookup, ?_⟩
  rcases lookup_eq_malformed (Or.inr hlookup) with ⟨-, hsource, -⟩ | hcalled
  · simp at hsource
  · exact hcalled

end Stack

end TagScope
