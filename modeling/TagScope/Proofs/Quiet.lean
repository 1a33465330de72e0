/-
# Lookups that call nothing

What a lookup finds without calling anything, it finds anywhere. Whether
something is called is decided by the names and by the scopes alone, and where
nothing is called nobody looks at the session. So from one session in which a
path has led to a value and no callable was called, it is known of every session
that the path leads to this value there and leaves nothing behind, or is refused.

A lookup is quiet if that is known of it; it settles if one run without calls
is enough to know it. All paths do (`Lookup.settles_resolve`).

Key definitions: `Lookup.Quiet`, `Lookup.Settles`.
Key theorems: `Lookup.settles_resolve`, `Lookup.Quiet.follows_pure`.
-/
import TagScope.Proofs.Alike
import TagScope.Proofs.Journal
import TagScope.Proofs.Members

namespace TagScope

open Session

namespace Lookup

variable {σ α β : Type}

/-! ### Quiet lookups -/

/-- From any session the lookup ends with `a` and in a session that is alike, or
it is refused. -/
def Quiet (a : α) (m : Lookup σ α) : Prop :=
  ∀ s r t, m.run s = some (r, t) → (r = .ok a ∧ Alike s t) ∨
    ∃ limit, r = .error (.depthExceeded limit) ∧ t.refusals = s.refusals ++ [limit]

namespace Quiet

variable {a : α} {m : Lookup σ α}

theorem pure (a : α) : Quiet a (Pure.pure a : Lookup σ α) := by
  intro s r t h
  obtain ⟨rfl, rfl⟩ : .ok a = r ∧ s = t := Prod.mk.inj (Option.some.inj h)
  exact Or.inl ⟨rfl, .refl s⟩

theorem bind (hm : Quiet a m) {f : α → Lookup σ β} {b : β} (hf : Quiet b (f a)) :
    Quiet b (m >>= f) := by
  intro s r t h
  rcases run_bind_eq_some.1 h with ⟨a', u, hu, ht⟩ | ⟨e, ht, rfl⟩
  · rcases hm s _ u hu with ⟨ha, halike⟩ | ⟨limit, herror, -⟩
    · obtain rfl : a' = a := Except.ok.inj ha
      rcases hf u r t ht with ⟨hr, halike'⟩ | ⟨limit, hr, hrefused⟩
      · exact Or.inl ⟨hr, halike.trans halike'⟩
      · exact Or.inr ⟨limit, hr, by rw [hrefused, halike.refusals]⟩
    · simp at herror
  · rcases hm s _ t ht with ⟨hok, -⟩ | ⟨limit, herror, hrefused⟩
    · simp at hok
    · exact Or.inr ⟨limit, by rw [Except.error.inj herror], hrefused⟩

theorem guarded (hm : Quiet a m) (limit : UInt64) : Quiet a (Lookup.guarded limit m) := by
  intro s r t h
  rcases run_guarded_eq_some.1 h with ⟨-, result, u, hu, hr⟩ | ⟨-, hr⟩
  · obtain ⟨rfl, rfl⟩ := Prod.mk.inj hr
    rcases hm _ r u hu with ⟨hok, halike⟩ | ⟨limit', herror, hrefused⟩
    · exact Or.inl ⟨hok, halike.leave_of_enter⟩
    · exact Or.inr ⟨limit', herror, by simpa using hrefused⟩
  · obtain ⟨rfl, rfl⟩ := Prod.mk.inj hr
    exact Or.inr ⟨limit, rfl, by simp⟩

theorem tracked (hm : Quiet a m) {activity : Activity} (hcall : activity.call? = none) :
    Quiet a (Lookup.tracked activity m) := by
  intro s r t h
  obtain ⟨result, u, hu, hr⟩ := run_tracked_eq_some.1 h
  obtain ⟨rfl, rfl⟩ := Prod.mk.inj hr
  rcases hm _ r u hu with ⟨hok, halike⟩ | ⟨limit, herror, hrefused⟩
  · have hbegan : Alike s (s.began activity) := .note_of_none hcall rfl
    exact Or.inl ⟨hok, (hbegan.trans halike).trans (.note_of_none rfl rfl)⟩
  · exact Or.inr ⟨limit, herror, by simpa using hrefused⟩

/-- **The value of a quiet lookup may take its place.** -/
theorem follows_pure (hm : Quiet a m) : Run.Follows m.run (Pure.pure a : Lookup σ α).run := by
  intro s r t h
  rcases hm s r t h with ⟨rfl, halike⟩ | ⟨limit, -, hrefused⟩
  · refine ⟨halike.refusals ▸ List.prefix_rfl, fun _ s' hs => ⟨s', rfl, halike.symm.trans hs⟩⟩
  · refine ⟨hrefused ▸ List.prefix_append _ _, fun heq => ?_⟩
    rw [hrefused] at heq
    simp at heq

end Quiet

/-! ### Lookups that settle -/

/-- Calls are only added, and where the lookup ends well and none has been added,
it is quiet. -/
def Settles (m : Lookup σ α) : Prop :=
  ∀ s r t, m.run s = some (r, t) → s.calls <+: t.calls ∧
    (t.calls = s.calls → ∀ a, r = .ok a → Quiet a m)

namespace Settles

variable {m : Lookup σ α}

theorem pure (a : α) : Settles (Pure.pure a : Lookup σ α) := by
  intro s r t h
  obtain ⟨rfl, rfl⟩ : .ok a = r ∧ s = t := Prod.mk.inj (Option.some.inj h)
  refine ⟨List.prefix_rfl, fun _ b hb => ?_⟩
  obtain rfl : a = b := Except.ok.inj hb
  exact .pure a

theorem bind (hm : Settles m) {f : α → Lookup σ β} (hf : ∀ a, Settles (f a)) :
    Settles (m >>= f) := by
  intro s r t h
  rcases run_bind_eq_some.1 h with ⟨a, u, hu, ht⟩ | ⟨e, ht, rfl⟩
  · obtain ⟨hgrown, hm⟩ := hm s _ u hu
    obtain ⟨hgrown', hf⟩ := hf a u r t ht
    refine ⟨hgrown.trans hgrown', fun heq b hb => ?_⟩
    obtain ⟨hfirst, hsecond⟩ := eq_of_grown hgrown hgrown' heq
    exact (hm hfirst a rfl).bind (hf hsecond b hb)
  · exact ⟨(hm s _ t ht).1, fun _ b hb => by simp at hb⟩

theorem guarded (hm : Settles m) (limit : UInt64) : Settles (Lookup.guarded limit m) := by
  intro s r t h
  rcases run_guarded_eq_some.1 h with ⟨-, result, u, hu, hr⟩ | ⟨-, hr⟩
  · obtain ⟨rfl, rfl⟩ := Prod.mk.inj hr
    obtain ⟨hgrown, hm⟩ := hm _ r u hu
    exact ⟨by simpa using hgrown, fun heq a ha => (hm (by simpa using heq) a ha).guarded _⟩
  · obtain ⟨rfl, rfl⟩ := Prod.mk.inj hr
    exact ⟨by simp, fun _ a ha => by simp at ha⟩

theorem tracked (hm : Settles m) {activity : Activity} (hcall : activity.call? = none) :
    Settles (Lookup.tracked activity m) := by
  intro s r t h
  obtain ⟨result, u, hu, hr⟩ := run_tracked_eq_some.1 h
  obtain ⟨rfl, rfl⟩ := Prod.mk.inj hr
  have hbegan : (s.began activity).calls = s.calls := by simp [hcall]
  obtain ⟨hgrown, hm⟩ := hm _ r u hu
  rw [hbegan] at hgrown hm
  rw [calls_ended]
  exact ⟨hgrown, fun heq a ha => (hm heq a ha).tracked hcall⟩

end Settles

/-! ### Paths -/

section

variable (host : Host σ) (stack : Stack)

theorem calls_of_invoke {id : String} {args : List Passed} {r : Record} {s t : Session σ}
    {result : Except LookupError Value}
    (h : (invoke host (whole host) stack id args r).run s = some (result, t)) :
    ∃ values, s.calls ++ [(id, values)] <+: t.calls := by
  obtain ⟨values, s₁, hreceive, hs₁⟩ : ∃ values s₁,
      (receive args).run s = some (.ok values, s₁) ∧ s₁.calls = s.calls := ⟨_, _, rfl, rfl⟩
  obtain ⟨outcome, u, hrun, hlogged⟩ := Routine.logged_run host (host.call r id values stack) []
    (s₁.began (.call stack id values))
  rw [invoke, run_bind_of_ok hreceive, run_call host _ stack hrun] at h
  obtain ⟨-, rfl⟩ := Prod.mk.inj (Option.some.inj h)
  have hcalls := hlogged.calls_prefix
  rw [calls_began, hs₁] at hcalls
  rw [calls_ended]
  exact ⟨values, hcalls⟩

theorem settles_fetch (id : String) (args : List Passed) :
    ∀ found, Settles (fetch host (whole host) stack id args found)
  | .nothing => .pure none
  | .stored v => .pure (some v)
  | .callable r => by
    intro s result t h
    rcases run_guarded_eq_some.1 h with ⟨-, result', u, hu, hr⟩ | ⟨-, hr⟩
    · obtain ⟨rfl, rfl⟩ := Prod.mk.inj hr
      obtain ⟨ended, hinvoked⟩ : ∃ ended,
          (invoke host (whole host) stack id args r).run s.enter = some (ended, u) := by
        rcases run_bind_eq_some.1 hu with ⟨v, u', hv, hu'⟩ | ⟨e, he, -⟩
        · obtain ⟨-, rfl⟩ := Prod.mk.inj (Option.some.inj hu')
          exact ⟨_, hv⟩
        · exact ⟨_, he⟩
      obtain ⟨values, hcalls⟩ := calls_of_invoke host stack hinvoked
      rw [calls_enter] at hcalls
      rw [calls_leave]
      refine ⟨(List.prefix_append _ _).trans hcalls, fun heq => ?_⟩
      have hlength := hcalls.length_le
      rw [heq, List.length_append, List.length_singleton] at hlength
      omega
    · obtain ⟨rfl, rfl⟩ := Prod.mk.inj hr
      exact ⟨by simp, fun _ a ha => by simp at ha⟩

mutual

/-- **A path settles**: where it leads to without calls, it leads to anywhere. -/
theorem settles_resolve : ∀ p : Path, Settles (whole host stack (.resolve p))
  | .current => by
    rw [whole_eq]
    exact .tracked (.guarded (.tracked (.pure _) rfl) _) rfl
  | .segments [] => by
    rw [whole_eq]
    exact .tracked (.guarded (.tracked (.pure _) rfl) _) rfl
  | .segments (segment :: rest) => by
    rw [whole_eq]
    refine Settles.tracked (.guarded (.tracked ?_ rfl) _) rfl
    refine .bind (settles_arguments segment) fun args => ?_
    rw [findIn_eq_fetch]
    refine .bind (settles_fetch host stack segment.name args _) fun found => ?_
    cases found with
    | some v => exact settles_narrow rest v
    | none => exact .pure none

theorem settles_narrow : ∀ (segments : List Segment) (v : Value),
    Settles (narrow host (whole host) stack v segments)
  | [], v => .pure (some v)
  | segment :: rest, v => by
    refine .bind (settles_arguments segment) fun args => ?_
    rw [member_eq_fetch]
    refine .bind (settles_fetch host stack segment.name args _) fun found => ?_
    cases found with
    | some w => exact settles_narrow rest w
    | none => exact .pure none

theorem settles_arguments : ∀ segment : Segment, Settles (arguments (whole host) stack segment)
  | .bare _ => .pure []
  | .call _ args => settles_evaluateAll args

theorem settles_evaluate : ∀ a : Arg,
    Settles (evaluate (fun p => whole host stack (.resolve p)) a)
  | .literal v => .pure (Passed.value v)
  | .path p => .bind (settles_resolve p) fun _ => .pure _
  | .list items => .bind (settles_evaluateAll items) fun _ => .pure _

theorem settles_evaluateAll : ∀ as : List Arg,
    Settles (evaluateAll (fun p => whole host stack (.resolve p)) as)
  | [] => .pure []
  | a :: as => .bind (settles_evaluate a) fun _ => .bind (settles_evaluateAll as) fun _ => .pure _

end

end

end Lookup

end TagScope
