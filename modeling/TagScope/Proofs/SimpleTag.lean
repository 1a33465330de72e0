/-
# A simple tag is its name

A tag that is one name, with or without white space around it, is read as the path of that
name, and to resolve this path is to find the name, in the same scopes and without arguments.
The difference is that a resolution is in progress meanwhile, so whatever callables look up
nests one deeper than where the name is found directly. Callables that do not look at the
count cannot tell (`Routine.IgnoresDepth`), as long as the limit is not met: with less in
progress, everything goes the same way (`Lookup.followsBy_whole`).

Key definitions: `Session.Shallower`, `Routine.IgnoresDepth`, `Host.IgnoresDepth`.
Key theorems: `Session.Shallower.coupling`, `Lookup.followsBy_whole`,
`Path.parse_simple`, `Stack.tryLookup_simple`.
-/
import TagScope.Proofs.Alike
import TagScope.Proofs.Complete
import TagScope.Proofs.Narrowing
import TagScope.Proofs.Raising

namespace TagScope

variable {σ : Type}

/-! ### Less in progress -/

namespace Session

/-- In the second session no more is in progress than in the first; apart from that, and from
what the journal tells besides calls and refusals, the two agree. -/
structure Shallower (s s' : Session σ) : Prop where
  depth : s'.depth ≤ s.depth
  nextIdentity : s.nextIdentity = s'.nextIdentity
  state : s.state = s'.state
  calls : s.calls = s'.calls
  refusals : s.refusals = s'.refusals

theorem Shallower.coupling : Coupling (@Shallower σ) where
  depth_le h := h.depth
  nextIdentity h := h.nextIdentity
  state h := h.state
  number _ h := { h with nextIdentity := rfl }
  write _ h := { h with state := rfl }
  more h := { h with depth := Nat.succ_le_succ h.depth }
  fewer h := { h with depth := Nat.sub_le_sub_right h.depth 1 }
  note h hcall hrefusal :=
    { h with
      calls := by rw [calls_note, calls_note, h.calls, hcall]
      refusals := by rw [refusals_note, refusals_note, h.refusals, hrefusal] }

end Session

open Session

/-! ### Callables that do not look at the count -/

/-- Whether what a routine does is the same for every count of lookups in progress. The text
that shows a stack tells the count, so it does not look at that either. -/
def Routine.IgnoresDepth : Routine σ → Prop
  | .done _ | .fail _ => True
  | .ask _ _ next => ∀ answer, IgnoresDepth (next answer)
  | .build _ next => ∀ v, IgnoresDepth (next v)
  | .depth next => (∀ n, next n = next 0) ∧ IgnoresDepth (next 0)
  | .read next => ∀ state, IgnoresDepth (next state)
  | .write _ next => IgnoresDepth next

/-- Whether no callable looks at the count. -/
def Host.IgnoresDepth (host : Host σ) : Prop :=
  ∀ r member values stack, (host.call r member values stack).IgnoresDepth

namespace Routine

variable {answer : Stack → Query → Lookup σ (Option Value)}
  (h : ∀ stack query, Run.FollowsBy Shallower (answer stack query).run (answer stack query).run)

include h

/-- **A routine goes the same way** with less in progress, if its questions are answered the
same way. -/
theorem followsBy_run : ∀ r : Routine σ, r.IgnoresDepth →
    Run.FollowsBy Shallower (r.run answer) (r.run answer)
  | .done _, _ | .fail _, _ => Run.FollowsBy.sequential.pure _
  | .ask stack query next, hr => (h stack query).bind fun result => followsBy_run _ (hr result)
  | .build items next, hr =>
    (Run.FollowsBy.build Shallower.coupling items).bind fun v => followsBy_run _ (hr v)
  | .depth next, hr => by
    have hrun : (Routine.depth next).run answer = (next 0).run answer := by
      funext s
      show (next s.depth).run answer s = _
      rw [hr.1]
    rw [hrun]
    exact followsBy_run _ hr.2
  | .read next, hr => by
    have hnext := (Run.FollowsBy.state Shallower.coupling).bind fun state =>
      followsBy_run _ (hr state)
    exact hnext
  | .write state next, hr =>
    (Run.FollowsBy.write Shallower.coupling state).bind fun _ => followsBy_run _ hr

end Routine

namespace Lookup

variable {host : Host σ} (hh : host.IgnoresDepth)

include hh

theorem sideBySide_shallower {answer : Stack → Query → Lookup σ (Option Value)}
    (h : ∀ stack query, Run.FollowsBy Shallower (answer stack query).run (answer stack query).run)
    (stack : Stack) :
    SideBySide (fun {_} => Run.FollowsBy Shallower) host answer answer stack stack where
  sequential := Run.FollowsBy.sequential
  receive := Run.FollowsBy.receive Shallower.coupling
  frames := rfl
  guarded hm := Run.FollowsBy.guarded Shallower.coupling (UInt64.le_refl _) hm
  resolution hm := Run.FollowsBy.tracked Shallower.coupling rfl hm
  call r member values :=
    Run.FollowsBy.sequential.call_of_run (Run.FollowsBy.tracked Shallower.coupling rfl)
      (Routine.followsBy_run h _ (hh r member values stack))

theorem followsBy_answer : ∀ (levels : Nat) (stack : Stack) (query : Query),
    Run.FollowsBy Shallower (answer host levels stack query).run
      (answer host levels stack query).run
  | 0, _, _ => fun _ _ _ h => absurd h (by simp [answer, exhausted])
  | levels + 1, stack, query =>
    have ih := followsBy_answer levels
    .tracked Shallower.coupling rfl
      ((sideBySide_shallower hh ih stack).step (fun p => ih stack (.resolve p)) query)

/-- **A lookup goes the same way** with less in progress. -/
theorem followsBy_whole (stack : Stack) (query : Query) :
    Run.FollowsBy Shallower (whole host stack query).run (whole host stack query).run :=
  followsBy_whole_of_answer (followsBy_answer hh) stack query

omit hh in
theorem follow_ofName (answer : Stack → Query → Lookup σ (Option Value)) (stack : Stack)
    (id : String) :
    follow host answer stack (.ofName id) = findIn host answer stack id [] stack.frames := by
  have harguments : arguments answer stack (.bare id) = pure [] := rfl
  rw [Path.ofName, follow, harguments, pure_bind]
  refine Eq.trans (bind_congr fun found => ?_) (bind_pure _)
  cases found <;> rfl

end Lookup

/-! ### Tags of one name -/

/-- **White space around a name** does not count. -/
theorem Path.parse_simple {id before after : String} (hid : IsName id.toList)
    (hb : Blanks before.toList) (ha : Blanks after.toList) :
    parse (before ++ id ++ after) = .ok (.ofName id) := by
  have hspelling : Path.Spelling id.toList (.ofName id) := by
    have hbare := Segment.Spelling.bare hid
    rw [String.ofList_toList] at hbare
    exact .segments (.last hbare)
  refine parse_of_tagSpelling ⟨before.toList, id.toList, after.toList, ?_, hb, ha, hspelling⟩ ?_
  · rw [String.toList_append, String.toList_append]
  · exact Nat.zero_le _

namespace Stack

variable {host : Host σ} {stack : Stack} {id : String} {s : Session σ}

/-- Where no depth check fails as the path of a name is resolved, to find the name goes the
same way. -/
theorem tryFind_of_tryResolve (hh : host.IgnoresDepth)
    (hs : (stack.tryResolve host (.ofName id) s).2.refusals = s.refusals) :
    (stack.tryFind host id [] s).1 = (stack.tryResolve host (.ofName id) s).1 ∧
      Alike (stack.tryResolve host (.ofName id) s).2 (stack.tryFind host id [] s).2 := by
  unfold tryResolve tryFind at *
  by_cases hl : s.depth < stack.maxDepth.toNat
  · have hdepth : (stack.query host (.resolve (.ofName id)) s).2.depth =
        (stack.query host (.find id []) s).2.depth :=
      (stack.logged_query host.asksWithin stack.maxDepth_le _ [] s).1.trans
        (stack.logged_query host.asksWithin stack.maxDepth_le _ [] s).1.symm
    obtain ⟨result, t, hfollow, hresolve⟩ := query_resolve_of_lt host (.ofName id) hl
    obtain ⟨result', t', hstep, hfind⟩ :=
      Lookup.run_tracked_eq_some.1 (@query_eq σ host stack (.find id []) s)
    rw [hresolve] at hs hdepth ⊢
    rw [hfind] at hdepth ⊢
    rw [Lookup.follow_ofName] at hfollow
    rw [Lookup.step, List.map_nil] at hstep
    have hside := Lookup.sideBySide_shallower hh (Lookup.followsBy_whole hh) stack
    obtain ⟨-, hfollows⟩ := hside.findIn id [] stack.frames _ _ _ hfollow
    -- one side begins with the resolution in progress, the other without
    have hbegin : Shallower (s.opened stack) (s.began (.question stack (some id))) :=
      ⟨Nat.le_succ _, rfl, rfl, by simp [opened, Activity.call?], by simp [opened]⟩
    obtain ⟨u, hu, hend⟩ := hfollows (by simpa [opened, closed] using hs) _ hbegin
    obtain ⟨rfl, rfl⟩ := Prod.mk.inj (Option.some.inj (hstep.symm.trans hu))
    refine ⟨rfl, hdepth, hend.nextIdentity, hend.state, ?_, ?_⟩
    · simpa [closed] using hend.calls
    · simpa [closed] using hend.refusals
  · rw [query_resolve_of_not_lt host (.ofName id) hl] at hs
    simp at hs

/-- **A tag of one name is that name.** Where callables do not look at the count of lookups in
progress, and no depth check fails as the tag is looked up, to find the name has the same
outcome, whether or not what is missing counts as the empty text. The same callables are
called with the same arguments in the same order, and the sessions are alike in the end. -/
theorem tryLookup_simple (hh : host.IgnoresDepth) {before after : String}
    (hid : IsName id.toList) (hb : Blanks before.toList) (ha : Blanks after.toList)
    (hs : (stack.tryLookup host (before ++ id ++ after) s).2.refusals = s.refusals) :
    (stack.tryFind host id [] s).1 = (stack.tryLookup host (before ++ id ++ after) s).1 ∧
      (stack.tryFind host id [] s).2.calls =
        (stack.tryLookup host (before ++ id ++ after) s).2.calls ∧
      Alike (stack.tryLookup host (before ++ id ++ after) s).2 (stack.tryFind host id [] s).2 ∧
      (stack.find host id [] s).1 = (stack.lookup host (before ++ id ++ after) s).1 ∧
      (stack.find host id [] s).2.calls =
        (stack.lookup host (before ++ id ++ after) s).2.calls := by
  have htag : stack.tryLookup host (before ++ id ++ after) s =
      stack.tryResolve host (.ofName id) s := by
    rw [tryLookup, Path.parse_simple hid hb ha]
  rw [htag] at hs
  obtain ⟨houtcome, halike⟩ := tryFind_of_tryResolve hh hs
  unfold find lookup
  rw [htag]
  refine ⟨houtcome, halike.calls.symm, halike, ?_, halike.calls.symm⟩
  exact congrArg (Except.map (·.getD .absent)) houtcome

end Stack

theorem Host.counting_ignoresDepth : counting.IgnoresDepth := by
  intro r member values stack
  by_cases hm : member = "count"
  · simp [counting, hm, Routine.IgnoresDepth]
  · simp only [counting, if_neg hm, Routine.IgnoresDepth]
    rintro (e | _ | v) <;> trivial

namespace Stack

/-- A stack with a callable that looks up the one that counts, on which so many resolutions
and calls may be in progress. -/
def measured (limit : UInt64) : Stack :=
  ⟨[.record (.withCallable "größe"), .record (.withCallable "count")], limit⟩

/-- Four of them are needed where the tag is looked up. -/
theorem tryLookup_simple_measured :
    ((measured 4).tryFind Host.counting "größe" [] { state := 0 }).1 =
      ((measured 4).tryLookup Host.counting "\u2003größe\n" { state := 0 }).1 ∧
    ((measured 4).tryFind Host.counting "größe" [] { state := 0 }).2.calls =
      [("größe", []), ("count", [])] := by
  have hid : IsName "größe".toList := ⟨by simp, List.all_eq_true.1 (by decide)⟩
  have hb : Blanks "\u2003".toList := List.all_eq_true.1 (by decide)
  have ha : Blanks "\n".toList := List.all_eq_true.1 (by decide)
  have htag : (measured 4).tryLookup Host.counting "\u2003größe\n" { state := 0 } =
      (measured 4).tryResolve Host.counting (.ofName "größe") { state := 0 } := by
    rw [tryLookup, show "\u2003größe\n" = "\u2003" ++ "größe" ++ "\n" from rfl,
      Path.parse_simple hid hb ha]
  have hwithin : ((measured 4).tryLookup Host.counting "\u2003größe\n" { state := 0 }).2.refusals =
      Session.refusals { state := 0 } := by
    rw [htag]
    rfl
  obtain ⟨houtcome, hcalls, -⟩ :=
    tryLookup_simple Host.counting_ignoresDepth hid hb ha hwithin
  refine ⟨houtcome, hcalls.trans ?_⟩
  show ((measured 4).tryLookup Host.counting "\u2003größe\n" { state := 0 }).2.calls = _
  rw [htag]
  rfl

/-- With three the name is found, but the path of the name is not resolved. -/
example : ((measured 3).tryFind Host.counting "größe" [] { state := 0 }).1 =
      .ok (some (.text "counted")) ∧
    ((measured 3).tryResolve Host.counting (.ofName "größe") { state := 0 }).1 =
      .error (.depthExceeded 3) := ⟨rfl, rfl⟩

end Stack
end TagScope
