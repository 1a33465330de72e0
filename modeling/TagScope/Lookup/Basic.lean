/-
# Looking things up

The questions that can be put to a stack: what a name stands for, what a path
leads to, and what a tag leads to, which is read first. Each comes in two
forms. One tells apart a name that is not found; the other answers it with
`Value.absent`, which is also an empty text that is found.

Key definitions: `Stack.query`, `Stack.find`, `Stack.resolve`, `Stack.lookup`, `Record.invoke`.
-/
import TagScope.Lookup.Total
import TagScope.Path.Parse

namespace TagScope

variable {σ α : Type}

/-- What is found, or `Value.absent`. -/
def orAbsent : Except LookupError (Option Value) × Session σ → Except LookupError Value × Session σ
  | (found, s) => (found.map (·.getD .absent), s)

/-- What is not found is no error. -/
theorem orAbsent_eq_error_iff {r : Except LookupError (Option Value) × Session σ}
    {e : LookupError} : (orAbsent r).1 = .error e ↔ r.1 = .error e := by
  obtain ⟨result, s⟩ := r
  cases result <;> simp [orAbsent, Except.map]

namespace Stack

variable (host : Host σ) (stack : Stack)

/-- Answers a question. -/
def query (q : Query) (s : Session σ) : Except LookupError (Option Value) × Session σ :=
  ((Lookup.answer host s.levels stack q).run s).get (Lookup.isSome_answer host stack q s)

/-- What a name stands for, if anything. A callable of that name is given `args`. -/
def tryFind (id : String) (args : List Value) :
    Session σ → Except LookupError (Option Value) × Session σ :=
  stack.query host (.find id args)

/-- What a name stands for. -/
def find (id : String) (args : List Value) (s : Session σ) : Except LookupError Value × Session σ :=
  orAbsent (stack.tryFind host id args s)

/-- What a path leads to, if anything. -/
def tryResolve (p : Path) : Session σ → Except LookupError (Option Value) × Session σ :=
  stack.query host (.resolve p)

/-- What a path leads to. -/
def resolve (p : Path) (s : Session σ) : Except LookupError Value × Session σ :=
  orAbsent (stack.tryResolve host p s)

/-- What a tag leads to, if anything. Nothing is looked up for a malformed tag. -/
def tryLookup (tag : String) (s : Session σ) : Except LookupError (Option Value) × Session σ :=
  match Path.parse tag with
  | .ok p => stack.tryResolve host p s
  | .error e => (.error (.malformed e), s)

/-- What a tag leads to. -/
def lookup (tag : String) (s : Session σ) : Except LookupError Value × Session σ :=
  orAbsent (stack.tryLookup host tag s)

end Stack

/-- Calls a callable of a record directly, not as part of a lookup. No guard
counts it, and it is told as an `Event.called` by whoever calls. -/
def Record.invoke (host : Host σ) (r : Record) (member : String) (args : List Value)
    (stack : Stack) (s : Session σ) : Except Failure Value × Session σ :=
  ((host.call r member args stack).run (Lookup.answer host s.levels) s).get
    (Routine.isSome_run host _ s)

namespace Routine

/-- Looks a tag up on a stack, as a callable does, and goes on with what is
found. -/
def lookup (stack : Stack) (tag : String)
    (next : Except LookupError (Option Value) → Routine σ) : Routine σ :=
  match Path.parse tag with
  | .ok p => .ask stack (.resolve p) next
  | .error e => next (.error (.malformed e))

end Routine

end TagScope
