/-
# Sessions

Lookups happen in a session. It counts the path resolutions and calls in
progress, on whatever stacks they run, hands out identities for new lists,
holds the state of the host, and keeps a journal of what happened.

The count and the activities are told by different parts of a lookup. A guard
counts, and tells what the count becomes or that it refuses, but not for what.
What is carried out tells that it begins and that it ends, and what the count is
then, but does not count. So the one can be held against the other.

A lookup changes the session and ends with an answer or an error. It may also
end with neither: lookups are carried out to a given number of levels, and
there are none left. `Lookup.Total` shows that this does not happen with as
many levels as a session provides.

Key definitions: `Activity`, `Event`, `Session`, `Lookup`, `Lookup.guarded`, `Lookup.tracked`.
-/
import TagScope.Lookup.Error
import TagScope.Stack

namespace TagScope

/-- What is carried out in a lookup. -/
inductive Activity where
  /-- A question to this stack, about a name or else a path, is seen to until it is
  answered or its lookup fails. -/
  | question (stack : Stack) (name? : Option String)
  /-- A path is resolved on this stack. -/
  | resolution (stack : Stack)
  /-- A callable runs, on this stack and with these arguments. -/
  | call (stack : Stack) (member : String) (args : List Value)

namespace Activity

/-- Whether it is counted while it is in progress. -/
def isCounted : Activity → Bool
  | .question .. => false
  | .resolution .. | .call .. => true

/-- The stack that it is carried out on. -/
def stack : Activity → Stack
  | .question stack _ | .resolution stack | .call stack _ _ => stack

/-- The callable and its arguments, if it is a call. -/
def call? : Activity → Option (String × List Value)
  | .call _ member args => some (member, args)
  | _ => none

end Activity

/-- What happens in a session. -/
inductive Event where
  /-- An activity begins; the count at that time, itself included. -/
  | began (activity : Activity) (depth : Nat)
  /-- It ends; the count at that time, itself still included. -/
  | ended (activity : Activity) (depth : Nat)
  /-- One more is counted; the count from now on. -/
  | entered (depth : Nat)
  /-- One less is counted; the count from now on. -/
  | left (depth : Nat)
  /-- Nothing more may begin, because so many are in progress already. -/
  | refused (limit : UInt64)
  /-- A callable is called directly, not as part of a lookup. -/
  | called (member : String) (args : List Value)

/-- The call that an event tells of, if it is one. -/
@[simp] def Event.call? : Event → Option (String × List Value)
  | .began activity _ => activity.call?
  | .called member args => some (member, args)
  | _ => none

/-- What lookups share. The journal has the latest event first. -/
structure Session (σ : Type) where
  depth : Nat := 0
  nextIdentity : Identity := 0
  state : σ
  journal : List Event := []

namespace Session

variable {σ : Type}

/-- The calls of a journal, the earliest first: the callable and its arguments. -/
def calls (s : Session σ) : List (String × List Value) :=
  s.journal.reverse.filterMap Event.call?

/-- The session with one more event. -/
def note (event : Event) (s : Session σ) : Session σ := { s with journal := event :: s.journal }

/-- The session in which an activity has begun. -/
def began (activity : Activity) (s : Session σ) : Session σ := s.note (.began activity s.depth)

/-- The session in which it has ended. -/
def ended (activity : Activity) (s : Session σ) : Session σ := s.note (.ended activity s.depth)

/-- The session with one more in the count. -/
def enter (s : Session σ) : Session σ :=
  { s with depth := s.depth + 1 }.note (.entered (s.depth + 1))

/-- The session with one less in the count. -/
def leave (s : Session σ) : Session σ :=
  { s with depth := s.depth - 1 }.note (.left (s.depth - 1))

end Session

/-- A computation in a session, which may run out of levels. -/
abbrev Run (σ : Type) := StateT (Session σ) Option

theorem Run.bind_eq_some {σ α β : Type} {m : Run σ α} {f : α → Run σ β} {s : Session σ}
    {r : β × Session σ} :
    (m >>= f) s = some r ↔ ∃ a s', m s = some (a, s') ∧ f a s' = some r := by
  show (m s).bind (fun r => f r.1 r.2) = some r ↔ _
  rw [Option.bind_eq_some_iff]
  exact Prod.exists

/-- A computation in a session that may fail. -/
abbrev Lookup (σ : Type) := ExceptT LookupError (Run σ)

namespace Lookup

variable {σ α : Type}

/-- There are no levels left. -/
def exhausted : Lookup σ α := ExceptT.mk fun _ => none

/-- Carries out `body` with one more in the count, unless `limit` are in it. -/
def guarded (limit : UInt64) (body : Lookup σ α) : Lookup σ α :=
  ExceptT.mk fun s =>
    if s.depth < limit.toNat then
      (body.run s.enter).map fun (result, s') => (result, s'.leave)
    else some (.error (.depthExceeded limit), s.note (.refused limit))

/-- Carries out `body`, and tells when it begins and ends. -/
def tracked (activity : Activity) (body : Lookup σ α) : Lookup σ α := ExceptT.mk fun s =>
  (body.run (s.began activity)).map fun (result, s') => (result, s'.ended activity)

section

variable {β : Type} {s s' : Session σ} {m : Lookup σ α}

theorem run_bind_of_ok {a : α} (hm : m.run s = some (.ok a, s')) (f : α → Lookup σ β) :
    (m >>= f).run s = (f a).run s' := by
  show (m.run s).bind _ = _
  rw [hm]
  rfl

theorem run_bind_of_error {e : LookupError} (hm : m.run s = some (.error e, s'))
    (f : α → Lookup σ β) : (m >>= f).run s = some (.error e, s') := by
  show (m.run s).bind _ = _
  rw [hm]
  rfl

end

variable {body : Lookup σ α} {s : Session σ} {r : Except LookupError α × Session σ}

/-- A guarded computation is carried out below the limit, and else refused. -/
theorem run_guarded_eq_some {limit : UInt64} :
    (guarded limit body).run s = some r ↔
      (s.depth < limit.toNat ∧ ∃ result s', body.run s.enter = some (result, s') ∧
        r = (result, s'.leave)) ∨
      (¬ s.depth < limit.toNat ∧ r = (.error (.depthExceeded limit), s.note (.refused limit))) := by
  show (if s.depth < limit.toNat then _ else _) = _ ↔ _
  by_cases hl : s.depth < limit.toNat
  · simp [hl, @eq_comm _ r]
  · simp [hl, @eq_comm _ r]

theorem run_tracked_eq_some {activity : Activity} :
    (tracked activity body).run s = some r ↔
      ∃ result s', body.run (s.began activity) = some (result, s') ∧
        r = (result, s'.ended activity) := by
  show Option.map _ (body.run (s.began activity)) = some r ↔ _
  simp [@eq_comm _ r]

end Lookup

end TagScope
