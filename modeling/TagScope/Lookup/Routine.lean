/-
# What callables do

A callable is given its arguments and the stack of the tag, and runs a routine:
it puts questions to that stack, or to one made from it, goes on with the
answers, and ends with a value or a failure. It may make new lists, look at and
change a state of the host, and look at the count of lookups in progress. A
routine is a tree with one branch for each answer, so every run of it asks
finitely many questions; how deep the questions lead is not its concern.

Key definitions: `Query`, `Routine`, `Routine.andThen`, `Host`, `Host.AsksWithin`.
-/
import TagScope.Lookup.Error
import TagScope.Path.Basic
import TagScope.Stack

namespace TagScope

/-- A question to a stack. -/
inductive Query where
  /-- What a name stands for; the arguments are for a callable of that name. -/
  | find (id : String) (args : List Value)
  /-- What a path leads to. -/
  | resolve (path : Path)

/-- The name that is asked for, if it is not a path. -/
def Query.name? : Query → Option String
  | .find id _ => some id
  | .resolve _ => none

/-- What a callable does, from some point on. -/
inductive Routine (σ : Type) where
  | done (v : Value)
  | fail (f : Failure)
  /-- Asks, and goes on with the answer. -/
  | ask (stack : Stack) (query : Query) (next : Except LookupError (Option Value) → Routine σ)
  /-- Makes a new list. -/
  | build (items : List Value) (next : Value → Routine σ)
  /-- Looks at the count of lookups in progress. -/
  | depth (next : Nat → Routine σ)
  /-- Looks at the state of the host. -/
  | read (next : σ → Routine σ)
  /-- Changes the state of the host. -/
  | write (state : σ) (next : Routine σ)

namespace Routine

variable {σ : Type}

/-- The routine that goes on with `next` where this one ends. -/
def andThen (next : Except Failure Value → Routine σ) : Routine σ → Routine σ
  | .done v => next (.ok v)
  | .fail f => next (.error f)
  | .ask stack query after => .ask stack query fun answer => andThen next (after answer)
  | .build items after => .build items fun v => andThen next (after v)
  | .depth after => .depth fun n => andThen next (after n)
  | .read after => .read fun state => andThen next (after state)
  | .write state after => .write state (andThen next after)

/-- Ends with the answer to a question, or with `missing` if nothing was
found; an error of the lookup is passed on. -/
def ofAnswer (missing : Value) : Except LookupError (Option Value) → Routine σ
  | .ok (some v) => .done v
  | .ok none => .done missing
  | .error e => .fail (.lookup e)

/-- Whether every question of a routine, whatever the answers are, goes to a
stack whose limit is at most `bound`. -/
def AsksWithin (bound : Nat) : Routine σ → Prop
  | .done _ | .fail _ => True
  | .ask stack _ next => stack.maxDepth.toNat ≤ bound ∧ ∀ answer, AsksWithin bound (next answer)
  | .build _ next => ∀ v, AsksWithin bound (next v)
  | .depth next => ∀ n, AsksWithin bound (next n)
  | .read next => ∀ state, AsksWithin bound (next state)
  | .write _ next => AsksWithin bound next

/-- A bound that no limit exceeds. -/
theorem asksWithin_of_le {bound : Nat} (h : 2 ^ 64 ≤ bound) : ∀ r : Routine σ, r.AsksWithin bound
  | .done _ | .fail _ => trivial
  | .ask stack _ next =>
    ⟨Nat.le_of_lt (Nat.lt_of_lt_of_le stack.maxDepth.toNat_lt h),
      fun a => asksWithin_of_le h (next a)⟩
  | .build _ next => fun v => asksWithin_of_le h (next v)
  | .depth next => fun n => asksWithin_of_le h (next n)
  | .read next => fun state => asksWithin_of_le h (next state)
  | .write _ next => asksWithin_of_le h next

end Routine

/-- What the callables of a host's records do. -/
structure Host (σ : Type) where
  call : (receiver : Record) → (member : String) → List Value → Stack → Routine σ

/-- Whether callables that run on a stack whose limit is at most `bound` put all
their questions to such stacks. -/
def Host.AsksWithin {σ : Type} (bound : Nat) (host : Host σ) : Prop :=
  ∀ receiver member args stack, stack.maxDepth.toNat ≤ bound →
    (host.call receiver member args stack).AsksWithin bound

end TagScope
