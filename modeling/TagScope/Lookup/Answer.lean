/-
# Answering questions

A name is looked up in the scopes of a stack, innermost first, and the first
scope that has it answers. A path is resolved segment by segment: the first
name is looked up in the whole stack, every later one only in what has been
reached. The arguments of every segment are paths on the whole stack, or lists
of arguments, or literals.

In a record a callable goes before a property: it is called, and what it gives
back is the answer even if it is empty. A callable may ask further questions.
Those are answered one level down, so that `answer` counts levels and nothing
else.

Key definitions: `Passed`, `Lookup.member`, `Lookup.findIn`, `Lookup.narrow`, `Lookup.follow`,
`Lookup.answer`.
-/
import TagScope.Lookup.Routine
import TagScope.Lookup.Session

namespace TagScope

/-- The index that a name is the decimal text of, without leading zeros. -/
def index? (id : String) : Option Nat :=
  let n := Nat.ofDigitChars 10 id.toList 0
  if Nat.toDigits 10 n = id.toList then some n else none

/-- An argument that has been evaluated. The lists written in a tag are made
only when a callable receives them. -/
inductive Passed where
  | value (v : Value)
  | list (items : List Passed)

mutual

/-- The value of an argument, with new lists numbered from `next` on, and the
number for the list after them. -/
def Passed.build (next : Identity) : Passed → Value × Identity
  | .value v => (v, next)
  | .list items =>
    let (vs, after) := Passed.buildAll (next + 1) items
    (.list next vs, after)

/-- The values of arguments. -/
def Passed.buildAll (next : Identity) : List Passed → List Value × Identity
  | [] => ([], next)
  | p :: ps =>
    let (v, after) := Passed.build next p
    let (vs, last) := Passed.buildAll after ps
    (v :: vs, last)

end

/-- Makes a new list. -/
def Run.build {σ : Type} (items : List Value) : Run σ Value := do
  let s ← get
  set { s with nextIdentity := s.nextIdentity + 1 }
  return .list s.nextIdentity items

/-- Carries out a routine, with `answer` for its questions. -/
def Routine.run {σ : Type} (answer : Stack → Query → Lookup σ (Option Value)) :
    Routine σ → Run σ (Except Failure Value)
  | .done v => pure (.ok v)
  | .fail f => pure (.error f)
  | .ask stack query next => do
    let result ← (answer stack query).run
    Routine.run answer (next result)
  | .build items next => do
    let v ← Run.build items
    Routine.run answer (next v)
  | .depth next => do
    let s ← get
    Routine.run answer (next s.depth)
  | .read next => do
    let s ← get
    Routine.run answer (next s.state)
  | .write state next => do
    modify fun s => { s with state }
    Routine.run answer next

namespace Lookup

variable {σ : Type}

/-- Makes the lists among evaluated arguments. -/
def receive (args : List Passed) : Lookup σ (List Value) := do
  let s ← get
  let (values, next) := Passed.buildAll s.nextIdentity args
  set { s with nextIdentity := next }
  return values

section

variable (host : Host σ) (answer : Stack → Query → Lookup σ (Option Value)) (stack : Stack)

/-- Calls a callable of a record. -/
def call (r : Record) (member : String) (args : List Value) : Lookup σ Value :=
  tracked (.call stack member args) do
    match ← ExceptT.lift ((host.call r member args stack).run answer) with
    | .ok v => return v
    | .error failure => throw (failure.escape member)

/-- What a name stands for in one scope. -/
def member (scope : Value) (id : String) (args : List Passed) : Lookup σ (Option Value) :=
  match scope.frame? with
  | none => return none
  | some (.mapping entries) => return entries.lookup id
  | some (.sequence items) => return (index? id).bind fun i => items[i]?
  | some (.record r) =>
    if r.hasCallable id then
      guarded stack.maxDepth do
        let values ← receive args
        return some (← call host answer stack r id values)
    else if r.hasProperty id then return r.property id
    else return none

/-- What a name stands for in the first scope that has it. -/
def findIn (id : String) (args : List Passed) : List Value → Lookup σ (Option Value)
  | [] => return none
  | scope :: outer => do
    match ← member host answer stack scope id args with
    | some v => return some v
    | none => findIn id args outer

end

mutual

/-- The value of an argument, with `resolve` for paths. -/
def evaluate (resolve : Path → Lookup σ (Option Value)) : Arg → Lookup σ Passed
  | .literal v => return .value v
  | .path p => return .value ((← resolve p).getD .absent)
  | .list items => return .list (← evaluateAll resolve items)

/-- The values of arguments, from left to right. -/
def evaluateAll (resolve : Path → Lookup σ (Option Value)) : List Arg → Lookup σ (List Passed)
  | [] => return []
  | a :: as => do
    let p ← evaluate resolve a
    let ps ← evaluateAll resolve as
    return p :: ps

end

section

variable (host : Host σ) (answer : Stack → Query → Lookup σ (Option Value)) (stack : Stack)

/-- The values of a segment's arguments, on the whole stack. -/
def arguments (s : Segment) : Lookup σ (List Passed) :=
  evaluateAll (fun p => answer stack (.resolve p)) s.args

/-- What segments lead to from a value that has been reached. -/
def narrow (v : Value) : List Segment → Lookup σ (Option Value)
  | [] => return some v
  | s :: rest => do
    let args ← arguments answer stack s
    match ← member host answer stack v s.name args with
    | some w => narrow w rest
    | none => return none

/-- What a path leads to. -/
def follow : Path → Lookup σ (Option Value)
  | .current => return stack.innermost?
  | .segments [] => return none
  | .segments (s :: rest) => do
    let args ← arguments answer stack s
    match ← findIn host answer stack s.name args stack.frames with
    | some v => narrow host answer stack v rest
    | none => return none

/-- Answers a question, with `answer` for the questions that come up. -/
def step : Query → Lookup σ (Option Value)
  | .find id args => findIn host answer stack id (args.map .value) stack.frames
  | .resolve path =>
    guarded stack.maxDepth (tracked (.resolution stack) (follow host answer stack path))

end

/-- Answers a question, carried out to so many levels. -/
def answer (host : Host σ) : (levels : Nat) → Stack → Query → Lookup σ (Option Value)
  | 0, _, _ => exhausted
  | levels + 1, stack, query =>
    tracked (.question stack query.name?) (step host (answer host levels) stack query)

end Lookup

end TagScope
