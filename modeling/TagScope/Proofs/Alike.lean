/-
# Sessions that lookups cannot tell apart

A lookup looks at the count of activities in progress, at the next identity and
at the state of the host; it writes into the journal, but never reads it. So the
journal may differ in what nobody asks for: sessions are alike if they agree in
all the rest, and in the calls and the refusals that have happened. One
computation follows another if from alike sessions, as long as nothing is
refused, it ends with the same result and again alike. Lookups follow themselves
(`Lookup.follows_whole`), and what follows may be put in the other's place
anywhere in a lookup (`Run.Follows.congruence`).

Most of this holds of any relation of sessions that the same steps keep
(`Session.Coupling`), as long as the second session has no more in progress.

Key definitions: `Session.refusals`, `Session.Alike`, `Session.Coupling`, `Run.FollowsBy`,
`Run.Follows`.
Key theorems: `Run.FollowsBy.guarded`, `Run.Follows.congruence`, `Lookup.follows_whole`.
-/
import TagScope.Proofs.Levels

namespace TagScope

variable {σ α β : Type}

/-! ### Calls and refusals -/

/-- The limit at which something was refused, if the event tells that. -/
@[simp] def Event.refusal? : Event → Option UInt64
  | .refused limit => some limit
  | _ => none

namespace Session

/-- The depth checks that have failed, the earliest first: the limit of each. -/
def refusals (s : Session σ) : List UInt64 := s.journal.reverse.filterMap Event.refusal?

variable (s : Session σ) (activity : Activity) (e : Event)

@[simp] theorem calls_note : (s.note e).calls = s.calls ++ e.call?.toList := by
  cases e with
  | began activity => cases activity <;> simp [calls, note, Activity.call?]
  | _ => simp [calls, note]

@[simp] theorem calls_began : (s.began activity).calls = s.calls ++ activity.call?.toList :=
  calls_note ..

@[simp] theorem calls_ended : (s.ended activity).calls = s.calls := by simp [ended]

@[simp] theorem calls_enter : s.enter.calls = s.calls :=
  (calls_note ..).trans (List.append_nil _)

@[simp] theorem calls_leave : s.leave.calls = s.calls :=
  (calls_note ..).trans (List.append_nil _)

@[simp] theorem refusals_note : (s.note e).refusals = s.refusals ++ e.refusal?.toList := by
  cases e <;> simp [refusals, note]

@[simp] theorem refusals_began : (s.began activity).refusals = s.refusals := by simp [began]

@[simp] theorem refusals_ended : (s.ended activity).refusals = s.refusals := by simp [ended]

@[simp] theorem refusals_enter : s.enter.refusals = s.refusals :=
  (refusals_note ..).trans (List.append_nil _)

@[simp] theorem refusals_leave : s.leave.refusals = s.refusals :=
  (refusals_note ..).trans (List.append_nil _)

/-- The two sessions agree, up to what the journal tells besides calls and
refusals. -/
structure Alike (s s' : Session σ) : Prop where
  depth : s.depth = s'.depth
  nextIdentity : s.nextIdentity = s'.nextIdentity
  state : s.state = s'.state
  calls : s.calls = s'.calls
  refusals : s.refusals = s'.refusals

namespace Alike

variable {s s' s'' : Session σ}

theorem refl (s : Session σ) : Alike s s := ⟨rfl, rfl, rfl, rfl, rfl⟩

theorem symm (h : Alike s s') : Alike s' s :=
  ⟨h.depth.symm, h.nextIdentity.symm, h.state.symm, h.calls.symm, h.refusals.symm⟩

theorem trans (h : Alike s s') (h' : Alike s' s'') : Alike s s'' where
  depth := h.depth.trans h'.depth
  nextIdentity := h.nextIdentity.trans h'.nextIdentity
  state := h.state.trans h'.state
  calls := h.calls.trans h'.calls
  refusals := h.refusals.trans h'.refusals

theorem note (h : Alike s s') {e e' : Event} (hcall : e.call? = e'.call?)
    (hrefusal : e.refusal? = e'.refusal?) : Alike (s.note e) (s'.note e') where
  depth := h.depth
  nextIdentity := h.nextIdentity
  state := h.state
  calls := by rw [calls_note, calls_note, h.calls, hcall]
  refusals := by rw [refusals_note, refusals_note, h.refusals, hrefusal]

/-- What is told besides calls and refusals makes no difference. -/
theorem note_of_none {e : Event} (hcall : e.call? = none) (hrefusal : e.refusal? = none) :
    Alike s (s.note e) where
  depth := rfl
  nextIdentity := rfl
  state := rfl
  calls := by rw [calls_note, hcall, Option.toList_none, List.append_nil]
  refusals := by rw [refusals_note, hrefusal, Option.toList_none, List.append_nil]

/-- What has been counted and no longer is makes no difference. -/
theorem leave_of_enter (h : Alike s.enter s') : Alike s s'.leave where
  depth := Nat.eq_sub_of_add_eq h.depth
  nextIdentity := h.nextIdentity
  state := h.state
  calls := by rw [calls_leave, ← h.calls, calls_enter]
  refusals := by rw [refusals_leave, ← h.refusals, refusals_enter]

end Alike

end Session

open Session

/-- A list that has grown twice and is what it was, was the same in between. -/
theorem eq_of_grown {xs ys zs : List α} (h : xs <+: ys) (h' : ys <+: zs) (heq : zs = xs) :
    ys = xs ∧ zs = ys := by
  subst heq
  have hy : ys = zs := h'.eq_of_length (Nat.le_antisymm h'.length_le h.length_le)
  exact ⟨hy, hy.symm⟩

/-! ### One computation after the other -/

/-- A relation of two sessions that is kept when the same is done in both, and the journals
tell of the same calls and refusals. In the second no more may be in progress than in the
first. -/
structure Session.Coupling (rel : Session σ → Session σ → Prop) : Prop where
  depth_le : ∀ {s s'}, rel s s' → s'.depth ≤ s.depth
  nextIdentity : ∀ {s s'}, rel s s' → s.nextIdentity = s'.nextIdentity
  state : ∀ {s s'}, rel s s' → s.state = s'.state
  number : ∀ {s s'} n, rel s s' → rel { s with nextIdentity := n } { s' with nextIdentity := n }
  write : ∀ {s s'} state, rel s s' → rel { s with state } { s' with state }
  more : ∀ {s s'}, rel s s' → rel { s with depth := s.depth + 1 } { s' with depth := s'.depth + 1 }
  fewer : ∀ {s s'}, rel s s' →
    rel { s with depth := s.depth - 1 } { s' with depth := s'.depth - 1 }
  note : ∀ {s s'} {e e' : Event}, rel s s' → e.call? = e'.call? → e.refusal? = e'.refusal? →
    rel (s.note e) (s'.note e')

theorem Session.Coupling.enter {rel : Session σ → Session σ → Prop} (hrel : Coupling rel)
    {s s' : Session σ} (h : rel s s') : rel s.enter s'.enter := hrel.note (hrel.more h) rfl rfl

theorem Session.Coupling.leave {rel : Session σ → Session σ → Prop} (hrel : Coupling rel)
    {s s' : Session σ} (h : rel s s') : rel s.leave s'.leave := hrel.note (hrel.fewer h) rfl rfl

theorem Session.Alike.coupling : Coupling (@Alike σ) where
  depth_le h := Nat.le_of_eq h.depth.symm
  nextIdentity h := h.nextIdentity
  state h := h.state
  number _ h := { h with nextIdentity := rfl }
  write _ h := { h with state := rfl }
  more h := { h with depth := congrArg (· + 1) h.depth }
  fewer h := { h with depth := congrArg (· - 1) h.depth }
  note h := h.note

/-- From related sessions the second computation ends with the result of the first,
and related, as long as the first has been refused nothing. -/
def Run.FollowsBy (rel : Session σ → Session σ → Prop) (m m' : Run σ α) : Prop :=
  ∀ s r t, m s = some (r, t) → s.refusals <+: t.refusals ∧
    (t.refusals = s.refusals → ∀ s', rel s s' → ∃ t', m' s' = some (r, t') ∧ rel t t')

namespace Run.FollowsBy

variable {rel : Session σ → Session σ → Prop}

theorem look (f : Session σ → α) (hf : ∀ {s s'}, rel s s' → f s = f s') :
    FollowsBy rel (f <$> get) (f <$> get) := by
  intro s r t h
  obtain ⟨rfl, rfl⟩ : f s = r ∧ s = t := Prod.mk.inj (Option.some.inj h)
  refine ⟨List.prefix_rfl, fun _ s' hs => ⟨s', ?_, hs⟩⟩
  rw [hf hs]
  rfl

/-- A step without refusals, from related sessions to related sessions. -/
theorem of_step (f : Session σ → α × Session σ) (hr : ∀ s, (f s).2.refusals = s.refusals)
    (hf : ∀ {s s'}, rel s s' → (f s).1 = (f s').1 ∧ rel (f s).2 (f s').2) :
    FollowsBy rel (fun s => some (f s)) (fun s => some (f s)) := by
  intro s r t h
  obtain ⟨hfst, rfl⟩ : (f s).1 = r ∧ (f s).2 = t := Prod.ext_iff.1 (Option.some.inj h)
  refine ⟨(hr s).symm ▸ List.prefix_rfl, fun _ s' hs => ?_⟩
  obtain ⟨heq, hrel⟩ := hf hs
  refine ⟨(f s').2, congrArg some (Prod.ext ?_ rfl), hrel⟩
  rw [← heq, hfst]

theorem bind {m m' : Run σ α} {f f' : α → Run σ β} (hm : FollowsBy rel m m')
    (hf : ∀ a, FollowsBy rel (f a) (f' a)) : FollowsBy rel (m >>= f) (m' >>= f') := by
  intro s r t h
  obtain ⟨a, u, hu, ht⟩ := Run.bind_eq_some.1 h
  obtain ⟨hgrown, hm⟩ := hm s a u hu
  obtain ⟨hgrown', hf⟩ := hf a u r t ht
  refine ⟨hgrown.trans hgrown', fun heq s' hs => ?_⟩
  obtain ⟨hfirst, hsecond⟩ := eq_of_grown hgrown hgrown' heq
  obtain ⟨u', hu', hrel⟩ := hm hfirst s' hs
  obtain ⟨t', ht', hrel'⟩ := hf hsecond u' hrel
  exact ⟨t', Run.bind_eq_some.2 ⟨a, u', hu', ht'⟩, hrel'⟩

theorem sequential : Run.Sequential (fun {_} => FollowsBy rel) where
  pure a := of_step (fun s => (a, s)) (fun _ => rfl) fun hs => ⟨rfl, hs⟩
  bind := bind

variable (hrel : Coupling rel)

include hrel

theorem build (items : List Value) : FollowsBy rel (Run.build items) (Run.build items) :=
  of_step _ (fun _ => rfl) fun {s s'} hs => by
    have hnumber := hrel.number (s.nextIdentity + 1) hs
    rw [hrel.nextIdentity hs] at hnumber ⊢
    exact ⟨rfl, hnumber⟩

theorem receive (args : List Passed) :
    FollowsBy rel (Lookup.receive args).run (Lookup.receive args).run :=
  of_step _ (fun _ => rfl) fun {s s'} hs => by
    have hnumber := hrel.number (Passed.buildAll s.nextIdentity args).2 hs
    rw [hrel.nextIdentity hs] at hnumber ⊢
    exact ⟨rfl, hnumber⟩

theorem state : FollowsBy rel (Session.state <$> get) (Session.state <$> get) :=
  look _ fun hs => hrel.state hs

theorem write (state : σ) :
    FollowsBy rel (modify fun s => { s with state }) (modify fun s => { s with state }) :=
  of_step _ (fun _ => rfl) fun hs => ⟨rfl, hrel.write state hs⟩

/-- The limit of the second may be higher: where the first is refused nothing, the
second is not either. -/
theorem guarded {limit limit' : UInt64} (hlimit : limit ≤ limit') {m m' : Lookup σ α}
    (h : FollowsBy rel m.run m'.run) :
    FollowsBy rel (Lookup.guarded limit m).run (Lookup.guarded limit' m').run := by
  intro s r t hrun
  rcases Lookup.run_guarded_eq_some.1 hrun with ⟨hl, result, u, hu, hr⟩ | ⟨hl, hr⟩
  · obtain ⟨rfl, rfl⟩ := Prod.mk.inj hr
    obtain ⟨hgrown, hm⟩ := h _ _ u hu
    refine ⟨by simpa using hgrown, fun heq s' hs => ?_⟩
    obtain ⟨u', hu', hrel'⟩ := hm (by simpa using heq) _ (hrel.enter hs)
    refine ⟨u'.leave, Lookup.run_guarded_eq_some.2 (Or.inl ⟨?_, r, u', hu', rfl⟩),
      hrel.leave hrel'⟩
    exact Nat.lt_of_le_of_lt (hrel.depth_le hs)
      (Nat.lt_of_lt_of_le hl (UInt64.le_iff_toNat_le.1 hlimit))
  · obtain ⟨rfl, rfl⟩ := Prod.mk.inj hr
    refine ⟨by simp, fun heq => ?_⟩
    simp at heq

/-- The second may tell of another stack, but of the same call. -/
theorem tracked {activity activity' : Activity} (hcall : activity.call? = activity'.call?)
    {m m' : Lookup σ α} (h : FollowsBy rel m.run m'.run) :
    FollowsBy rel (Lookup.tracked activity m).run (Lookup.tracked activity' m').run := by
  intro s r t hrun
  obtain ⟨result, u, hu, hr⟩ := Lookup.run_tracked_eq_some.1 hrun
  obtain ⟨rfl, rfl⟩ := Prod.mk.inj hr
  obtain ⟨hgrown, hm⟩ := h _ _ u hu
  refine ⟨by simpa using hgrown, fun heq s' hs => ?_⟩
  have hbegan : rel (s.began activity) (s'.began activity') := hrel.note hs hcall rfl
  obtain ⟨u', hu', hrel'⟩ := hm (by simpa using heq) _ hbegan
  exact ⟨_, Lookup.run_tracked_eq_some.2 ⟨r, u', hu', rfl⟩, hrel.note hrel' rfl rfl⟩

end Run.FollowsBy

/-- From alike sessions the second computation ends with the result of the first,
and alike, as long as the first has been refused nothing. -/
abbrev Run.Follows (m m' : Run σ α) : Prop := Run.FollowsBy Alike m m'

/-- **What follows may take the other's place** in a lookup. -/
theorem Run.Follows.congruence : Run.Congruence (@Follows σ) where
  pure a := FollowsBy.sequential.pure a
  bind := FollowsBy.bind
  build := FollowsBy.build Alike.coupling
  receive := FollowsBy.receive Alike.coupling
  depth := FollowsBy.look _ Alike.depth
  state := FollowsBy.state Alike.coupling
  write := FollowsBy.write Alike.coupling
  guarded limit := FollowsBy.guarded Alike.coupling (UInt64.le_refl limit)
  tracked _ := FollowsBy.tracked Alike.coupling rfl

open Run

/-! ### Lookups -/

namespace Lookup

variable {host : Host σ}

theorem follows_answer : ∀ (levels : Nat) (stack : Stack) (query : Query),
    Follows (answer host levels stack query).run (answer host levels stack query).run
  | 0, _, _ => fun _ _ _ h => absurd h (by simp [answer, exhausted])
  | levels + 1, stack, query =>
    .tracked Alike.coupling rfl (Follows.congruence.step (follows_answer levels) host stack query)

/-- What holds with any number of levels holds of whole lookups. -/
theorem followsBy_whole_of_answer {rel : Session σ → Session σ → Prop}
    (h : ∀ levels stack query, FollowsBy rel (answer host levels stack query).run
      (answer host levels stack query).run) (stack : Stack) (query : Query) :
    FollowsBy rel (whole host stack query).run (whole host stack query).run := by
  intro s r t hrun
  have hanswer := (stack.answer_levels host s).trans hrun
  obtain ⟨hgrown, hfollows⟩ := h s.levels stack query s r t hanswer
  refine ⟨hgrown, fun heq s' hs => ?_⟩
  obtain ⟨t', ht', hrel⟩ := hfollows heq s' hs
  exact ⟨t', congrArg some (Stack.query_eq_of_answer ht'), hrel⟩

/-- **A lookup goes the same way** in alike sessions. -/
theorem follows_whole (host : Host σ) (stack : Stack) (query : Query) :
    Follows (whole host stack query).run (whole host stack query).run :=
  followsBy_whole_of_answer follows_answer stack query

/-- A lookup is a step whose questions are answered by lookups. -/
theorem whole_eq (host : Host σ) (stack : Stack) (query : Query) :
    whole host stack query =
      tracked (.question stack query.name?) (step host (whole host) stack query) :=
  funext fun s => (stack.query_eq s).symm

end Lookup

end TagScope
