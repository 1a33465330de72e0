/-
# What the journal of a session tells

Guards change the count of a session, and tell what it becomes but not for what.
What is carried out tells that it begins and ends, and what it finds the count to
be. Here the two are brought together: `Journal.running` finds out from the events
which activities are in progress, and an event is `Event.Fitting` if the count that
it tells is the number of path resolutions and calls among them. The count differs
from that number only in between two events, of which the one changes the count and
the other tells for which resolution or call.

A lookup appends to the journal what is complete in itself (`Journal.Complete`):
whatever begins in it ends in it, with the count that it began with. All lookups
do, because that is an invariant in the sense of `Session.Invariant`.

Key definitions: `Journal.running`, `Journal.count`, `Event.Fitting`, `Journal.Complete`,
`Journal.Ending`, `Session.Logged`.
Key theorems: `Journal.Complete.running_eq`, `Journal.Complete.fitting`,
`Journal.Complete.ending`, `Session.invariant_logged`, `Stack.logged_query`.
-/
import TagScope.Proofs.Levels

namespace TagScope

/-! ### Activities in progress -/

/-- The activities in progress after an event, the innermost first, where `ongoing`
were in progress. -/
def Event.proceed (ongoing : List Activity) : Event → List Activity
  | .began activity _ => activity :: ongoing
  | .ended _ _ => ongoing.tail
  | _ => ongoing

namespace Journal

/-- The activities in progress after events, the earliest of which is first. -/
def running (ongoing : List Activity) (events : List Event) : List Activity :=
  events.foldl Event.proceed ongoing

/-- The number of path resolutions and calls among activities. -/
def count (ongoing : List Activity) : Nat := ongoing.countP Activity.isCounted

@[simp] theorem count_question (stack : Stack) (name? : Option String)
    (ongoing : List Activity) : count (.question stack name? :: ongoing) = count ongoing :=
  List.countP_cons_of_neg (by simp [Activity.isCounted])

theorem count_of_isCounted {activity : Activity} (h : activity.isCounted = true)
    (ongoing : List Activity) : count (activity :: ongoing) = count ongoing + 1 :=
  List.countP_cons_of_pos h

theorem running_cons (ongoing : List Activity) (e : Event) (events : List Event) :
    running ongoing (e :: events) = running (e.proceed ongoing) events := rfl

theorem running_append (ongoing : List Activity) (events more : List Event) :
    running ongoing (events ++ more) = running (running ongoing events) more :=
  List.foldl_append

end Journal

open Journal

/-- Whether an activity may begin where these are in progress. A question may always
be put. A resolution or a call begins in what it arises in, below the limit of its
stack, which does not exceed `bound`; so the count stays a 64-bit word. -/
def Activity.MayBegin (bound : Nat) (ongoing : List Activity) (activity : Activity) : Prop :=
  activity.isCounted = true →
    (∃ outer ∈ ongoing.head?, activity.ArisesIn outer) ∧
    activity.stack.maxDepth.toNat ≤ bound ∧ count ongoing < activity.stack.maxDepth.toNat ∧
    count ongoing + 1 < 2 ^ 64

/-- Whether what an event tells is right where these activities are in progress and
`next?` is told next: the count is the number of path resolutions and calls among
them. One more is counted where one begins right then, and one less where one ends.
What begins may begin, what ends is the innermost, and nothing is refused below the
limit of its stack or called without being told to begin. -/
def Event.Fitting (bound : Nat) (ongoing : List Activity) (next? : Option Event) : Event → Prop
  | .began activity depth => depth = count (activity :: ongoing) ∧ activity.MayBegin bound ongoing
  | .ended activity depth => depth = count ongoing ∧ ongoing.head? = some activity ∧
    (activity.isCounted = true → 0 < depth ∧ next? = some (.left (depth - 1)))
  | .entered depth => depth = count ongoing + 1 ∧
    ∃ activity, activity.isCounted = true ∧ next? = some (.began activity depth)
  | .left depth => depth = count ongoing
  | .refused limit => limit.toNat ≤ count ongoing ∧
    ∃ outer ∈ ongoing.head?, outer.stack.maxDepth = limit
  | .called _ _ => False

namespace Journal

/-- Every event fits what is in progress when it happens, if `next?` is told behind them. -/
def Fitting (bound : Nat) (next? : Option Event) : List Activity → List Event → Prop
  | _, [] => True
  | ongoing, e :: events => e.Fitting bound ongoing (events.head?.or next?) ∧
    Fitting bound next? (e.proceed ongoing) events

theorem fitting_append {bound : Nat} {next? : Option Event} : ∀ {ongoing : List Activity}
    {events more : List Event}, Fitting bound next? ongoing (events ++ more) ↔
      Fitting bound (more.head?.or next?) ongoing events ∧
        Fitting bound next? (running ongoing events) more
  | _, [], _ => (and_iff_right trivial).symm
  | ongoing, e :: events, more => by
    have ih := @fitting_append bound next? (e.proceed ongoing) events more
    have hnext : (events ++ more).head?.or next? = events.head?.or (more.head?.or next?) := by
      rw [List.head?_append, Option.or_assoc]
    rw [List.cons_append, Fitting, Fitting, ih, hnext, and_assoc]
    rfl

theorem Fitting.count_running_le {bound most : Nat} {next? : Option Event} (hb : bound ≤ most) :
    ∀ {ongoing : List Activity} {events : List Event}, Fitting bound next? ongoing events →
    count ongoing ≤ most → count (running ongoing events) ≤ most
  | _, [], _, hl => hl
  | ongoing, e :: events, h, hl => by
    refine @Fitting.count_running_le bound most next? hb (e.proceed ongoing) events h.2 ?_
    cases e with
    | began activity depth =>
      show count (activity :: ongoing) ≤ most
      by_cases hc : activity.isCounted = true
      · obtain ⟨-, hlimit, hlt, -⟩ := h.1.2 hc
        rw [count_of_isCounted hc]
        omega
      · rw [count, List.countP_cons_of_neg hc]
        exact hl
    | ended activity depth => exact Nat.le_trans (List.tail_sublist _).countP_le hl
    | _ => exact hl

theorem Fitting.event {bound : Nat} {next? : Option Event} {ongoing : List Activity}
    {past future : List Event} {e : Event} (h : Fitting bound next? ongoing (past ++ e :: future)) :
    e.Fitting bound (running ongoing past) (future.head?.or next?) :=
  (fitting_append.1 h).2.1

/-! ### Complete journals -/

/-- The events of what begins and ends where these activities are in progress and no
limit exceeds `bound`. -/
inductive Complete (bound : Nat) : List Activity → List Event → Prop where
  | nil {ongoing : List Activity} : Complete bound ongoing []
  | refused {outer : Activity} {ongoing : List Activity} {rest : List Event} :
    outer.stack.maxDepth.toNat ≤ count (outer :: ongoing) →
    Complete bound (outer :: ongoing) rest →
    Complete bound (outer :: ongoing) (.refused outer.stack.maxDepth :: rest)
  | question {stack : Stack} {name? : Option String} {ongoing : List Activity} {depth : Nat}
    {inner rest : List Event} : depth = count ongoing →
    Complete bound (.question stack name? :: ongoing) inner → Complete bound ongoing rest →
    Complete bound ongoing (.began (.question stack name?) depth ::
      (inner ++ .ended (.question stack name?) depth :: rest))
  | counted {activity : Activity} {ongoing : List Activity} {depth : Nat}
    {inner rest : List Event} : depth = count ongoing → activity.isCounted = true →
    activity.MayBegin bound ongoing →
    Complete bound (activity :: ongoing) inner → Complete bound ongoing rest →
    Complete bound ongoing (.entered (depth + 1) :: .began activity (depth + 1) ::
      (inner ++ .ended activity (depth + 1) :: .left depth :: rest))

/-- Every activity that begins in these events ends in them with the count that it
began with, and what is told in between is complete in itself. -/
def Ending (bound : Nat) (ongoing : List Activity) (events : List Event) : Prop :=
  ∀ past activity depth future, events = past ++ .began activity depth :: future →
    ∃ inner rest, future = inner ++ .ended activity depth :: rest ∧
      Complete bound (activity :: running ongoing past) inner

namespace Ending

variable {bound : Nat} {ongoing : List Activity} {events : List Event}

theorem cons {e : Event} (he : ∀ activity depth, e ≠ .began activity depth)
    (h : Ending bound (e.proceed ongoing) events) : Ending bound ongoing (e :: events) := by
  intro past activity depth future hevents
  cases past with
  | nil => exact absurd (List.cons.inj hevents).1 (he activity depth)
  | cons e' past =>
    obtain ⟨rfl, hrest⟩ := List.cons.inj hevents
    exact h past activity depth future hrest

theorem append (h : Ending bound ongoing events) {more : List Event}
    (h' : Ending bound (running ongoing events) more) : Ending bound ongoing (events ++ more) := by
  intro past activity depth future hevents
  rcases List.append_eq_append_iff.1 hevents with ⟨mid, rfl, hmore⟩ | ⟨mid, hpast, hmid⟩
  · rw [running_append]
    exact h' mid activity depth future hmore
  · cases mid with
    | nil =>
      rw [List.append_nil] at hpast
      subst hpast
      exact h' [] activity depth future hmid.symm
    | cons e mid =>
      rw [List.cons_append, List.cons.injEq] at hmid
      obtain ⟨rfl, rfl⟩ := hmid
      obtain ⟨inner, rest, rfl, hinner⟩ := h past activity depth mid hpast
      exact ⟨inner, rest ++ more, List.append_assoc .., hinner⟩

theorem began {activity : Activity} {depth : Nat} {inner rest : List Event}
    (hinner : Complete bound (activity :: ongoing) inner)
    (h : Ending bound (activity :: ongoing) (inner ++ .ended activity depth :: rest)) :
    Ending bound ongoing (.began activity depth :: (inner ++ .ended activity depth :: rest)) := by
  intro past activity' depth' future hevents
  cases past with
  | nil =>
    rw [List.nil_append, List.cons.injEq, Event.began.injEq] at hevents
    obtain ⟨⟨rfl, rfl⟩, rfl⟩ := hevents
    exact ⟨inner, rest, rfl, hinner⟩
  | cons e past =>
    obtain ⟨rfl, hrest⟩ := List.cons.inj hevents
    exact h past activity' depth' future hrest

end Ending

namespace Complete

variable {bound : Nat} {ongoing : List Activity} {events : List Event}

theorem append (h : Complete bound ongoing events) {more : List Event}
    (h' : Complete bound ongoing more) : Complete bound ongoing (events ++ more) := by
  induction h with
  | nil => exact h'
  | refused hl _ ih => exact .refused hl (ih h')
  | question hd hinner _ _ ih =>
    rw [List.cons_append, List.append_assoc, List.cons_append]
    exact .question hd hinner (ih h')
  | counted hd hc hbegin hinner _ _ ih =>
    rw [List.cons_append, List.cons_append, List.append_assoc, List.cons_append, List.cons_append]
    exact .counted hd hc hbegin hinner (ih h')

/-- **Whatever began has ended.** -/
theorem running_eq (h : Complete bound ongoing events) : running ongoing events = ongoing := by
  induction h with
  | nil => rfl
  | refused _ _ ih => exact ih
  | @question stack name? ongoing _ inner rest _ _ _ ih ih' =>
    rw [running_cons, running_append]
    show running (running (.question stack name? :: ongoing) inner) _ = ongoing
    rw [ih]
    exact ih'
  | @counted activity ongoing _ inner rest _ _ _ _ _ ih ih' =>
    rw [running_cons, running_cons, running_append]
    show running (running (activity :: ongoing) inner) _ = ongoing
    rw [ih]
    exact ih'

/-- **Every event fits** the activities that are in progress. -/
theorem fitting (h : Complete bound ongoing events) (next? : Option Event) :
    Fitting bound next? ongoing events := by
  induction h generalizing next? with
  | nil => trivial
  | refused hl _ ih => exact ⟨⟨hl, _, rfl, rfl⟩, ih next?⟩
  | @question stack name? ongoing depth inner rest hd hinner _ ih ih' =>
    have hcount := count_question stack name? ongoing
    refine ⟨⟨hd.trans hcount.symm, nofun⟩, fitting_append.2 ⟨ih _, ?_⟩⟩
    show Fitting bound next? (running (.question stack name? :: ongoing) inner) _
    rw [hinner.running_eq]
    exact ⟨⟨hd.trans hcount.symm, rfl, nofun⟩, ih' next?⟩
  | @counted activity ongoing depth inner rest hd hc hbegin hinner _ ih ih' =>
    have hcount : depth + 1 = count (activity :: ongoing) := by rw [count_of_isCounted hc, hd]
    refine ⟨⟨congrArg (· + 1) hd, activity, hc, rfl⟩, ⟨hcount, hbegin⟩,
      fitting_append.2 ⟨ih _, ?_⟩⟩
    show Fitting bound next? (running (activity :: ongoing) inner) _
    rw [hinner.running_eq]
    exact ⟨⟨hcount, rfl, fun _ => ⟨Nat.succ_pos _, rfl⟩⟩, hd, ih' next?⟩

end Complete

end Journal

/-! ### Every lookup is complete -/

variable {σ : Type}

/-- Between the two sessions the journal has grown, and by something complete if the
count is right in the first. -/
def Session.Logged (bound : Nat) (ongoing : List Activity) (s s' : Session σ) : Prop :=
  s'.depth = s.depth ∧ ∃ events, s'.journal.reverse = s.journal.reverse ++ events ∧
    (s.depth = count ongoing → Complete bound ongoing events)

theorem Session.invariant_logged (bound : Nat) :
    Session.Invariant bound (Session.Logged (σ := σ) bound) where
  depth h := h.1
  quiet hd hj := ⟨hd, [], by simp [hj], fun _ => .nil⟩
  trans := by
    rintro ongoing s s' s'' ⟨hd, events, hj, hc⟩ ⟨hd', events', hj', hc'⟩
    refine ⟨hd'.trans hd, events ++ events', by rw [hj', hj, List.append_assoc], fun hs => ?_⟩
    exact (hc hs).append (hc' (hd.trans hs))
  refused {ongoing s} outer hl := by
    refine ⟨rfl, [.refused outer.stack.maxDepth], List.reverse_cons, fun hs => ?_⟩
    exact .refused (hs ▸ hl) .nil
  asked {ongoing s s'} stack name? h := by
    obtain ⟨hd, events, hj, hc⟩ := h
    have hdepth : s'.depth = s.depth := hd
    refine ⟨hd, .began (.question stack name?) s.depth ::
      (events ++ [.ended (.question stack name?) s.depth]), ?_, fun hs => ?_⟩
    · show (Event.ended (.question stack name?) s'.depth :: s'.journal).reverse = _
      rw [List.reverse_cons, hj, hdepth]
      simp [began, note]
    · have hinner := hc (hs.trans (count_question stack name? ongoing).symm)
      exact .question hs hinner .nil
  counted {ongoing s t s'} outer activity hcounted harises hb hl htd htj h := by
    obtain ⟨hd, events, hj, hc⟩ := h
    have hdepth : s'.depth = s.depth + 1 := hd.trans htd
    have hbegan : (t.began activity).journal.reverse =
        s.journal.reverse ++ [.entered (s.depth + 1), .began activity (s.depth + 1)] := by
      simp [began, note, enter, htj, htd]
    refine ⟨congrArg (· - 1) hdepth, .entered (s.depth + 1) :: .began activity (s.depth + 1) ::
      (events ++ [.ended activity (s.depth + 1), .left s.depth]), ?_, fun hs => ?_⟩
    · show (Event.left (s'.depth - 1) :: .ended activity s'.depth :: s'.journal).reverse = _
      rw [List.reverse_cons, List.reverse_cons, hj, hdepth, hbegan]
      simp
    · have hword : s.depth + 1 < 2 ^ 64 := Nat.lt_of_le_of_lt hl activity.stack.maxDepth.toNat_lt
      have hbegin : activity.MayBegin bound (outer :: ongoing) :=
        fun _ => ⟨⟨outer, rfl, harises⟩, hb, hs ▸ hl, hs ▸ hword⟩
      have hinner : (t.began activity).depth = count (activity :: outer :: ongoing) := by
        rw [count_of_isCounted hcounted, ← hs]
        exact htd
      exact .counted hs hcounted hbegin (hc hinner) .nil

/-- **A lookup leaves a complete journal** and the count as it was. -/
theorem Stack.logged_query {bound : Nat} {host : Host σ} (hh : host.AsksWithin bound)
    {stack : Stack} (hb : stack.maxDepth.toNat ≤ bound) (query : Query) (ongoing : List Activity)
    (s : Session σ) : Session.Logged bound ongoing s (stack.query host query s).2 := by
  have hwithin : s.Within bound (bound + 1) := by
    unfold Session.Within
    omega
  obtain ⟨a, s', h, hlogged⟩ := Lookup.finishes_answer (Session.invariant_logged bound) hh
    (bound + 1) ongoing stack query s hb hwithin
  rw [Stack.query_eq_of_answer h]
  exact hlogged

theorem Session.within_max (s : Session σ) : s.Within (2 ^ 64) (2 ^ 64 + 1) := by
  unfold Within
  omega

/-- Lookups answer for themselves, and leave complete journals. -/
theorem Lookup.answersWithin_whole (host : Host σ) :
    AnswersWithin (Session.Logged (2 ^ 64)) (2 ^ 64) (2 ^ 64 + 1) (whole host) :=
  fun ongoing stack query s hb _ =>
    ⟨_, _, rfl, stack.logged_query host.asksWithin hb query ongoing s⟩

theorem Routine.logged_run (host : Host σ) (r : Routine σ) (ongoing : List Activity)
    (s : Session σ) : ∃ result s', r.run (Lookup.whole host) s = some (result, s') ∧
      Session.Logged (2 ^ 64) ongoing s s' :=
  r.finishes_run (Session.invariant_logged _) (Lookup.answersWithin_whole host) ongoing s
    (asksWithin_of_le (Nat.le_refl _) r) s.within_max

theorem Session.Logged.calls_prefix {bound : Nat} {ongoing : List Activity} {s s' : Session σ}
    (h : Logged bound ongoing s s') : s.calls <+: s'.calls := by
  obtain ⟨-, events, hj, -⟩ := h
  rw [calls, calls, hj, List.filterMap_append]
  exact List.prefix_append _ _

end TagScope
