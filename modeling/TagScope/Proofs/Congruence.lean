/-
# Lookups side by side

Two lookups, each on a stack of its own, are compared part by part: if their guards
keep a relation of computations, and their callables and the paths among their
arguments are related, then so are the lookups (`Lookup.SideBySide.step`).

A relation is a congruence if every small step of a lookup is related to itself, and
what is put together of related parts is related. Lookups on the same stack whose
questions are answered by related lookups are then related as a whole
(`Run.Congruence.step`): whoever compares two ways of answering has to look at the
small steps only.

Key definitions: `Run.Sequential`, `Lookup.SideBySide`, `Run.Congruence`, `Segment.Matching`.
Key theorems: `Lookup.SideBySide.follow_segments`, `Lookup.SideBySide.step`,
`Run.Congruence.run`, `Run.Congruence.step`.
-/
import Mathlib.Data.List.Forall2
import TagScope.Lookup.Answer

namespace TagScope

variable {σ : Type}

/-! ### Two lookups -/

/-- A relation of computations that is kept by doing one thing after the other. -/
structure Run.Sequential (R : ∀ {α : Type}, Run σ α → Run σ α → Prop) : Prop where
  pure : ∀ {α : Type} (a : α), R (pure a) (pure a)
  bind : ∀ {α β : Type} {m m' : Run σ α} {f f' : α → Run σ β}, R m m' →
    (∀ a, R (f a) (f' a)) → R (m >>= f) (m' >>= f')

namespace Run.Sequential

open Lookup

variable {R : ∀ {α : Type}, Run σ α → Run σ α → Prop} (hR : Run.Sequential R)

include hR

theorem bindLookup {α β : Type} {m m' : Lookup σ α} {f f' : α → Lookup σ β}
    (hm : R m.run m'.run) (hf : ∀ a, R (f a).run (f' a).run) : R (m >>= f).run (m' >>= f').run :=
  hR.bind hm fun result =>
    match result with
    | .ok a => hf a
    | .error _ => hR.pure _

theorem lift {α : Type} {m m' : Run σ α} (hm : R m m') :
    R (ExceptT.lift m : Lookup σ α).run (ExceptT.lift m').run :=
  hR.bind hm fun _ => hR.pure _

/-- Calls end in related ways if they are told in related ways, and the routines of the
callables end so. -/
theorem call_of_run {host : Host σ} {answer answer' : Stack → Query → Lookup σ (Option Value)}
    {stack stack' : Stack} {r : Record} {member : String} {args : List Value}
    (htracked : ∀ {m m' : Lookup σ Value}, R m.run m'.run →
      R (tracked (.call stack member args) m).run (tracked (.call stack' member args) m').run)
    (h : R ((host.call r member args stack).run answer)
      ((host.call r member args stack').run answer')) :
    R (call host answer stack r member args).run (call host answer' stack' r member args).run := by
  refine htracked (hR.bindLookup (hR.lift h) fun result => ?_)
  cases result <;> exact hR.pure _

mutual

theorem evaluate {resolve resolve' : Path → Lookup σ (Option Value)}
    (h : ∀ p, R (resolve p).run (resolve' p).run) :
    ∀ a : Arg, R (evaluate resolve a).run (evaluate resolve' a).run
  | .literal _ => hR.pure _
  | .path p => hR.bindLookup (h p) fun _ => hR.pure _
  | .list items => hR.bindLookup (evaluateAll h items) fun _ => hR.pure _

theorem evaluateAll {resolve resolve' : Path → Lookup σ (Option Value)}
    (h : ∀ p, R (resolve p).run (resolve' p).run) :
    ∀ as : List Arg, R (evaluateAll resolve as).run (evaluateAll resolve' as).run
  | [] => hR.pure _
  | a :: as => hR.bindLookup (evaluate h a) fun _ =>
    hR.bindLookup (evaluateAll h as) fun _ => hR.pure _

end

end Run.Sequential

/-- Two ways of looking up, on a stack each: the scopes are the same, guards keep the
relation, and a call of one is related to the call of the other. -/
structure Lookup.SideBySide (R : ∀ {α : Type}, Run σ α → Run σ α → Prop) (host : Host σ)
    (answer answer' : Stack → Query → Lookup σ (Option Value)) (stack stack' : Stack) : Prop where
  sequential : Run.Sequential R
  receive : ∀ args, R (Lookup.receive args).run (Lookup.receive args).run
  frames : stack.frames = stack'.frames
  guarded : ∀ {α : Type} {m m' : Lookup σ α}, R m.run m'.run →
    R (Lookup.guarded stack.maxDepth m).run (Lookup.guarded stack'.maxDepth m').run
  resolution : ∀ {α : Type} {m m' : Lookup σ α}, R m.run m'.run →
    R (Lookup.tracked (.resolution stack) m).run (Lookup.tracked (.resolution stack') m').run
  call : ∀ r member values, R (Lookup.call host answer stack r member values).run
    (Lookup.call host answer' stack' r member values).run

namespace Lookup.SideBySide

open Lookup

variable {R : ∀ {α : Type}, Run σ α → Run σ α → Prop} {host : Host σ}
  {answer answer' : Stack → Query → Lookup σ (Option Value)} {stack stack' : Stack}
  (hR : Lookup.SideBySide R host answer answer' stack stack')

include hR

theorem member (scope : Value) (id : String) (args : List Passed) :
    R (member host answer stack scope id args).run
      (member host answer' stack' scope id args).run := by
  unfold Lookup.member
  split
  · exact hR.sequential.pure _
  · exact hR.sequential.pure _
  · exact hR.sequential.pure _
  · split
    · refine hR.guarded (hR.sequential.bindLookup (hR.receive args) fun values => ?_)
      exact hR.sequential.bindLookup (hR.call _ id values) fun _ => hR.sequential.pure _
    · split <;> exact hR.sequential.pure _

theorem findIn (id : String) (args : List Passed) : ∀ scopes : List Value,
    R (findIn host answer stack id args scopes).run
      (findIn host answer' stack' id args scopes).run
  | [] => hR.sequential.pure _
  | scope :: outer => hR.sequential.bindLookup (hR.member scope id args) fun found =>
    match found with
    | some _ => hR.sequential.pure _
    | none => findIn id args outer

/-- Segments of the same names, with arguments that are evaluated in related ways. -/
theorem narrow {segments segments' : List Segment}
    (hs : List.Forall₂ (fun segment segment' => segment.name = segment'.name ∧
      R (arguments answer stack segment).run (arguments answer' stack' segment').run)
      segments segments') : ∀ v, R (narrow host answer stack v segments).run
      (narrow host answer' stack' v segments').run := by
  induction hs with
  | nil => exact fun v => hR.sequential.pure _
  | @cons segment segment' _ _ hsegment _ ih =>
    intro v
    rw [Lookup.narrow, Lookup.narrow, ← hsegment.1]
    refine hR.sequential.bindLookup hsegment.2 fun args => ?_
    refine hR.sequential.bindLookup (hR.member v segment.name args) fun found => ?_
    cases found with
    | some w => exact ih w
    | none => exact hR.sequential.pure _

theorem follow_segments {segments segments' : List Segment}
    (hs : List.Forall₂ (fun segment segment' => segment.name = segment'.name ∧
      R (arguments answer stack segment).run (arguments answer' stack' segment').run)
      segments segments') :
    R (follow host answer stack (.segments segments)).run
      (follow host answer' stack' (.segments segments')).run := by
  cases hs with
  | nil => exact hR.sequential.pure _
  | @cons segment segment' _ _ hsegment hrest =>
    rw [Lookup.follow, Lookup.follow, ← hsegment.1, ← hR.frames]
    refine hR.sequential.bindLookup hsegment.2 fun args => ?_
    refine hR.sequential.bindLookup (hR.findIn segment.name args stack.frames) fun found => ?_
    cases found with
    | some v => exact hR.narrow hrest v
    | none => exact hR.sequential.pure _

/-- **Two lookups of the same**, if the paths that come up among arguments are
answered in related ways. -/
theorem step (h : ∀ p, R (answer stack (.resolve p)).run (answer' stack' (.resolve p)).run)
    (query : Query) :
    R (step host answer stack query).run (step host answer' stack' query).run := by
  cases query with
  | find id args =>
    rw [Lookup.step, Lookup.step, ← hR.frames]
    exact hR.findIn id _ stack.frames
  | resolve p =>
    refine hR.guarded (hR.resolution ?_)
    cases p with
    | current =>
      rw [Lookup.follow, Lookup.follow, Stack.innermost?, Stack.innermost?, ← hR.frames]
      exact hR.sequential.pure _
    | segments segments =>
      exact hR.follow_segments (List.forall₂_same.2 fun segment _ =>
        ⟨rfl, hR.sequential.evaluateAll h segment.args⟩)

end Lookup.SideBySide

/-! ### Lookups on one stack -/

/-- A relation of computations that is kept by all that lookups are put together
of. -/
structure Run.Congruence (R : ∀ {α : Type}, Run σ α → Run σ α → Prop) : Prop where
  pure : ∀ {α : Type} (a : α), R (pure a) (pure a)
  bind : ∀ {α β : Type} {m m' : Run σ α} {f f' : α → Run σ β}, R m m' →
    (∀ a, R (f a) (f' a)) → R (m >>= f) (m' >>= f')
  build : ∀ items, R (Run.build items) (Run.build items)
  receive : ∀ args, R (Lookup.receive args).run (Lookup.receive args).run
  depth : R (Session.depth <$> get) (Session.depth <$> get)
  state : R (Session.state <$> get) (Session.state <$> get)
  write : ∀ state : σ, R (modify fun s => { s with state }) (modify fun s => { s with state })
  guarded : ∀ {α : Type} {m m' : Lookup σ α} limit, R m.run m'.run →
    R (Lookup.guarded limit m).run (Lookup.guarded limit m').run
  tracked : ∀ {α : Type} {m m' : Lookup σ α} activity, R m.run m'.run →
    R (Lookup.tracked activity m).run (Lookup.tracked activity m').run

/-- Segments of one name, with arguments that are evaluated in related ways. -/
structure Segment.Matching (R : ∀ {α : Type}, Run σ α → Run σ α → Prop)
    (answer answer' : Stack → Query → Lookup σ (Option Value)) (stack : Stack)
    (segment segment' : Segment) : Prop where
  name : segment.name = segment'.name
  arguments : R (Lookup.arguments answer stack segment).run
    (Lookup.arguments answer' stack segment').run

namespace Run.Congruence

open Lookup

variable {R : ∀ {α : Type}, Run σ α → Run σ α → Prop} (hR : Run.Congruence R)

include hR

theorem sequential : Run.Sequential R := ⟨hR.pure, hR.bind⟩

theorem bindLookup {α β : Type} {m m' : Lookup σ α} {f f' : α → Lookup σ β}
    (hm : R m.run m'.run) (hf : ∀ a, R (f a).run (f' a).run) : R (m >>= f).run (m' >>= f').run :=
  hR.sequential.bindLookup hm hf

theorem evaluate {resolve resolve' : Path → Lookup σ (Option Value)}
    (h : ∀ p, R (resolve p).run (resolve' p).run) (a : Arg) :
    R (evaluate resolve a).run (evaluate resolve' a).run := hR.sequential.evaluate h a

theorem evaluateAll {resolve resolve' : Path → Lookup σ (Option Value)}
    (h : ∀ p, R (resolve p).run (resolve' p).run) (as : List Arg) :
    R (evaluateAll resolve as).run (evaluateAll resolve' as).run := hR.sequential.evaluateAll h as

section

variable {answer answer' : Stack → Query → Lookup σ (Option Value)}
  (h : ∀ stack query, R (answer stack query).run (answer' stack query).run)

include h

theorem run : ∀ r : Routine σ, R (r.run answer) (r.run answer')
  | .done _ | .fail _ => hR.pure _
  | .ask stack query next => hR.bind (h stack query) fun result => run (next result)
  | .build items next => hR.bind (hR.build items) fun v => run (next v)
  | .depth next =>
    have hnext := hR.bind hR.depth fun n => run (next n)
    hnext
  | .read next =>
    have hnext := hR.bind hR.state fun state => run (next state)
    hnext
  | .write state next => hR.bind (hR.write state) fun _ => run next

variable (host : Host σ) (stack : Stack)

theorem sideBySide : Lookup.SideBySide R host answer answer' stack stack where
  sequential := hR.sequential
  receive := hR.receive
  frames := rfl
  guarded hm := hR.guarded _ hm
  resolution hm := hR.tracked _ hm
  call _ _ _ := hR.sequential.call_of_run (hR.tracked _) (hR.run h _)

theorem arguments (segment : Segment) :
    R (arguments answer stack segment).run (arguments answer' stack segment).run :=
  hR.evaluateAll (fun p => h stack (.resolve p)) segment.args

theorem matching_self (segments : List Segment) :
    List.Forall₂ (Segment.Matching R answer answer' stack) segments segments :=
  List.forall₂_same.2 fun segment _ => ⟨rfl, hR.arguments h stack segment⟩

theorem follow_segments {segments segments' : List Segment}
    (hs : List.Forall₂ (Segment.Matching R answer answer' stack) segments segments') :
    R (follow host answer stack (.segments segments)).run
      (follow host answer' stack (.segments segments')).run :=
  (hR.sideBySide h host stack).follow_segments (hs.imp fun _ _ h => ⟨h.name, h.arguments⟩)

/-- **A lookup**, with the questions that come up answered in related ways. -/
theorem step (query : Query) :
    R (step host answer stack query).run (step host answer' stack query).run :=
  (hR.sideBySide h host stack).step (fun p => h stack (.resolve p)) query

end

end Run.Congruence

end TagScope
