/-
# Arguments mean their value

An argument is a path on the whole stack, wherever it stands: in a later
segment, in an argument of an argument, in a list. If that path leads to a value
and calls nothing, the value may be written in its place. As long as no depth
check fails, the path around it then leads to the same, calls the same callables
with the same arguments in the same order, and leaves the same state of the host
(`Stack.tryResolve_replaced`). So what an argument means does not depend on what
the path has narrowed to.

The two runs do not have the same journal, as the argument is resolved in one of
them only. They are alike all the way: where the argument stands because it is
quiet, and everywhere else because the same is done from alike sessions.

Key definitions: `Path.Replaced`.
Key theorems: `Path.Replaced.follows`, `Stack.tryResolve_replaced`.
-/
import TagScope.Proofs.Limit
import TagScope.Proofs.Quiet

namespace TagScope

variable {σ : Type}

/-! ### One argument replaced -/

section

variable (q : Path) (v : Value)

mutual

/-- In the path one argument `q` has been replaced by the literal `v`. -/
inductive Path.Replaced : Path → Path → Prop where
  | segments {ss ss' : List Segment} :
    Segment.ReplacedIn ss ss' → Path.Replaced (.segments ss) (.segments ss')

/-- In one of the segments the argument has been replaced. -/
inductive Segment.ReplacedIn : List Segment → List Segment → Prop where
  | head {name : String} {args args' : List Arg} {rest : List Segment} :
    Arg.ReplacedIn args args' →
    Segment.ReplacedIn (.call name args :: rest) (.call name args' :: rest)
  | tail {s : Segment} {ss ss' : List Segment} :
    Segment.ReplacedIn ss ss' → Segment.ReplacedIn (s :: ss) (s :: ss')

/-- The argument is the one that has been replaced, or it has been replaced in
it. -/
inductive Arg.Replaced : Arg → Arg → Prop where
  | here : Arg.Replaced (.path q) (.literal v)
  | path {p p' : Path} : Path.Replaced p p' → Arg.Replaced (.path p) (.path p')
  | list {as as' : List Arg} : Arg.ReplacedIn as as' → Arg.Replaced (.list as) (.list as')

/-- In one of the arguments the argument has been replaced. -/
inductive Arg.ReplacedIn : List Arg → List Arg → Prop where
  | head {a a' : Arg} {rest : List Arg} :
    Arg.Replaced a a' → Arg.ReplacedIn (a :: rest) (a' :: rest)
  | tail {a : Arg} {as as' : List Arg} :
    Arg.ReplacedIn as as' → Arg.ReplacedIn (a :: as) (a :: as')

end

end

/-! ### Both ways are the same -/

open Run Lookup

section

variable {host : Host σ} {stack : Stack} {q : Path} {found : Option Value}

mutual

theorem Path.Replaced.follows {p p' : Path} (hq : Quiet found (whole host stack (.resolve q)))
    (h : Path.Replaced q (found.getD .absent) p p') :
    Follows (whole host stack (.resolve p)).run (whole host stack (.resolve p')).run :=
  match h with
  | .segments hs => by
    rw [whole_eq, whole_eq]
    refine Follows.congruence.tracked _ (Follows.congruence.guarded _ ?_)
    refine Follows.congruence.tracked _ ?_
    exact Follows.congruence.follow_segments (follows_whole host) host stack (hs.matching hq)

theorem Segment.ReplacedIn.matching {ss ss' : List Segment}
    (hq : Quiet found (whole host stack (.resolve q)))
    (h : Segment.ReplacedIn q (found.getD .absent) ss ss') :
    List.Forall₂ (Segment.Matching Follows (whole host) (whole host) stack) ss ss' :=
  match h with
  | .head hargs =>
    .cons ⟨rfl, hargs.follows hq⟩ (Follows.congruence.matching_self (follows_whole host) stack _)
  | .tail hs =>
    .cons ⟨rfl, Follows.congruence.arguments (follows_whole host) stack _⟩ (hs.matching hq)

theorem Arg.Replaced.follows {a a' : Arg} (hq : Quiet found (whole host stack (.resolve q)))
    (h : Arg.Replaced q (found.getD .absent) a a') :
    Follows (evaluate (fun p => whole host stack (.resolve p)) a).run
      (evaluate (fun p => whole host stack (.resolve p)) a').run :=
  match h with
  | .here => (hq.bind (.pure (Passed.value (found.getD .absent)))).follows_pure
  | .path hp => Follows.congruence.bindLookup (hp.follows hq) fun _ => Follows.congruence.pure _
  | .list has => Follows.congruence.bindLookup (has.follows hq) fun _ => Follows.congruence.pure _

theorem Arg.ReplacedIn.follows {as as' : List Arg}
    (hq : Quiet found (whole host stack (.resolve q)))
    (h : Arg.ReplacedIn q (found.getD .absent) as as') :
    Follows (evaluateAll (fun p => whole host stack (.resolve p)) as).run
      (evaluateAll (fun p => whole host stack (.resolve p)) as').run :=
  have hself := fun p => follows_whole host stack (.resolve p)
  match h with
  | .head ha =>
    Follows.congruence.bindLookup (ha.follows hq) fun _ =>
      Follows.congruence.bindLookup (Follows.congruence.evaluateAll hself _) fun _ =>
        Follows.congruence.pure _
  | .tail has =>
    Follows.congruence.bindLookup (Follows.congruence.evaluate hself _) fun _ =>
      Follows.congruence.bindLookup (has.follows hq) fun _ => Follows.congruence.pure _

end

end

/-- Of a path that leads to a value without calls it is known where it leads in
any session. -/
theorem Stack.exists_quiet (host : Host σ) (stack : Stack) (q : Path) {v : Value} {s : Session σ}
    (hv : (stack.resolve host q s).1 = .ok v)
    (hcalls : (stack.resolve host q s).2.calls = s.calls) :
    ∃ found : Option Value, found.getD .absent = v ∧
      Quiet found (whole host stack (.resolve q)) := by
  have hsettles := (settles_resolve host stack q s _ _ rfl).2 hcalls
  change (stack.query host (.resolve q) s).1.map _ = _ at hv
  cases hfound : (stack.query host (.resolve q) s).1 with
  | ok found =>
    rw [hfound] at hv
    exact ⟨found, Except.ok.inj hv, hsettles found hfound⟩
  | error e =>
    rw [hfound] at hv
    simp [Except.map] at hv

/-- **An argument means its value.** If the path `q` leads to `v` on the stack, in
some session, and calls nothing, then an argument `q` anywhere in a path may be
replaced by the literal `v`: as long as the resolution of the path fails no depth
check, nor does the other fail one, both have the same outcome, and the same
callables are called with the same arguments in the same order. -/
theorem Stack.tryResolve_replaced (host : Host σ) (stack : Stack) {q p p' : Path} {v : Value}
    {s₀ s : Session σ} (hv : (stack.resolve host q s₀).1 = .ok v)
    (hcalls : (stack.resolve host q s₀).2.calls = s₀.calls) (hp : Path.Replaced q v p p')
    (hdepth : (stack.tryResolve host p s).2.refusals = s.refusals) :
    (stack.tryResolve host p' s).1 = (stack.tryResolve host p s).1 ∧
      (stack.tryResolve host p' s).2.calls = (stack.tryResolve host p s).2.calls ∧
      (stack.tryResolve host p' s).2.refusals = s.refusals := by
  obtain ⟨found, rfl, hq⟩ := stack.exists_quiet host q hv hcalls
  obtain ⟨-, hfollows⟩ := hp.follows hq s _ _ rfl
  obtain ⟨t', ht', halike⟩ := hfollows hdepth s (.refl s)
  have hquery : stack.tryResolve host p' s = _ := Option.some.inj ht'
  rw [hquery]
  exact ⟨rfl, halike.calls.symm, halike.refusals.symm.trans hdepth⟩

/-- A host whose callables give their first argument back. -/
def Host.echo : Host Unit where
  call _ _ args _ := .done (args.headD .null)

/-- An object with one callable, and around it a name. -/
def Stack.nested : Stack where
  frames := [.map 0 [("object", .record (.withCallable "echo"))], .map 1 [("name", .text "outer")]]

/-- The call of the object's callable with one argument. -/
def Path.nested (a : Arg) : Path := .segments [.bare "object", .call "echo" [a]]

theorem Stack.tryResolve_replaced_nested :
    (nested.tryResolve Host.echo (.nested (.literal (.text "outer"))) { state := () }).1 =
      (nested.tryResolve Host.echo (.nested (.path (.ofName "name"))) { state := () }).1 ∧
    (nested.tryResolve Host.echo (.nested (.literal (.text "outer"))) { state := () }).2.calls =
      (nested.tryResolve Host.echo (.nested (.path (.ofName "name"))) { state := () }).2.calls ∧
    (nested.tryResolve Host.echo (.nested (.literal (.text "outer"))) { state := () }).2.refusals =
      [] := by
  obtain ⟨t, ht, hcalls⟩ : ∃ t, (answer Host.echo 1 nested (.resolve (.ofName "name"))).run
      { state := () } = some (.ok (some (.text "outer")), t) ∧ t.calls = [] := ⟨_, rfl, rfl⟩
  obtain ⟨t', ht', hrefusals⟩ : ∃ t', (answer Host.echo 2 nested
      (.resolve (.nested (.path (.ofName "name"))))).run { state := () } =
        some (.ok (some (.text "outer")), t') ∧ t'.refusals = [] := ⟨_, rfl, rfl⟩
  have hname := query_eq_of_answer ht
  have hpath := query_eq_of_answer ht'
  have hreplaced : Path.Replaced (.ofName "name") (.text "outer")
      (.nested (.path (.ofName "name"))) (.nested (.literal (.text "outer"))) :=
    .segments (.tail (.head (.head .here)))
  have hvalue : (nested.resolve Host.echo (.ofName "name") { state := () }).1 =
      .ok (.text "outer") := by
    rw [resolve, tryResolve, hname]
    rfl
  have hquiet : (nested.resolve Host.echo (.ofName "name") { state := () }).2.calls = [] := by
    rw [resolve, tryResolve, hname]
    exact hcalls
  refine tryResolve_replaced Host.echo nested hvalue hquiet hreplaced ?_
  rw [tryResolve, hpath]
  exact hrefusals

end TagScope
