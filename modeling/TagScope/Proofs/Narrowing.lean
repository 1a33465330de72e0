/-
# Narrowing

To follow a path that goes on is to follow the first part and then to narrow
what has been reached (`Lookup.follow_append`). So a path stops where its first
part stops, with the same outcome and the same session: nothing behind that is
evaluated. And from a value that has been reached, the rest of a path leads where
it would lead on a stack with that value for its only scope, whatever the scopes
around it are.

Key definitions: `Lookup.onward`, `Segment.CallNothing`, `Segment.target`.
Key theorems: `Lookup.follow_append`, `Lookup.follow_eq_narrow`, `Stack.query_resolve_of_lt`,
`Stack.tryResolve_append`.
-/
import TagScope.Proofs.Journal
import TagScope.Proofs.Members

namespace TagScope

variable {σ : Type}

/-! ### A path that goes on -/

namespace Lookup

/-- Goes on from what has been found, if anything has. -/
def onward (next : Value → Lookup σ (Option Value)) : Option Value → Lookup σ (Option Value)
  | some v => next v
  | none => return none

section

variable (host : Host σ) (answer : Stack → Query → Lookup σ (Option Value)) (stack : Stack)

theorem narrow_append (q : List Segment) : ∀ (p : List Segment) (v : Value),
    narrow host answer stack v (p ++ q) =
      narrow host answer stack v p >>= onward fun w => narrow host answer stack w q
  | [], v => by rw [List.nil_append, narrow, pure_bind, onward]
  | segment :: p, v => by
    rw [List.cons_append, narrow, narrow, bind_assoc]
    refine bind_congr fun args => ?_
    rw [bind_assoc]
    refine bind_congr fun found => ?_
    cases found with
    | some w => exact narrow_append q p w
    | none => rw [pure_bind, onward]

/-- **A path that goes on** is narrowed from where its first part has led. -/
theorem follow_append {p : List Segment} (hp : p ≠ []) (q : List Segment) :
    follow host answer stack (.segments (p ++ q)) =
      follow host answer stack (.segments p) >>= onward fun v => narrow host answer stack v q := by
  match p with
  | segment :: p =>
    rw [List.cons_append, follow, follow, bind_assoc]
    refine bind_congr fun args => ?_
    rw [bind_assoc]
    refine bind_congr fun found => ?_
    cases found with
    | some v => exact narrow_append host answer stack q p v
    | none => rw [pure_bind, onward]

/-- Where there is one scope only, a path narrows that scope. -/
theorem follow_eq_narrow {v : Value} (hf : stack.frames = [v]) {q : List Segment} (hq : q ≠ []) :
    follow host answer stack (.segments q) = narrow host answer stack v q := by
  match q with
  | segment :: q =>
    have hfirst : Found.first segment.name stack.frames = v.found segment.name := by
      rw [hf, Found.first]
      cases v.found segment.name <;> rfl
    rw [follow, narrow]
    refine bind_congr fun args => ?_
    rw [findIn_eq_fetch, member_eq_fetch, hfirst]

end

end Lookup

/-! ### Paths that call nothing -/

/-- Whether no callable is met on the way from a value through segments. -/
def Segment.CallNothing : List Segment → Value → Prop
  | [], _ => True
  | segment :: rest, v =>
    match v.found segment.name with
    | .nothing => True
    | .stored w => Segment.CallNothing rest w
    | .callable _ => False

/-- Where segments lead from a value if nothing is called on the way. -/
def Segment.target : List Segment → Value → Option Value
  | [], v => some v
  | segment :: rest, v =>
    match v.found segment.name with
    | .stored w => Segment.target rest w
    | .nothing | .callable _ => none

/-- Without arguments and callables, narrowing looks at the value and at nothing
else. -/
theorem Lookup.run_narrow_of_callNothing (host : Host σ)
    (answer : Stack → Query → Lookup σ (Option Value)) (stack : Stack) (s : Session σ) :
    ∀ (q : List Segment) (v : Value), (∀ segment ∈ q, segment.args = []) →
      Segment.CallNothing q v →
      (narrow host answer stack v q).run s = some (.ok (Segment.target q v), s)
  | [], _, _, _ => rfl
  | segment :: q, v, hargs, hq => by
    have hargument : arguments answer stack segment = pure [] := by
      rw [arguments, hargs segment List.mem_cons_self]
      rfl
    have hrest : ∀ segment ∈ q, segment.args = [] := fun t ht => hargs t (List.mem_cons_of_mem _ ht)
    rw [narrow, hargument, pure_bind, member_eq_fetch, Segment.target]
    rw [Segment.CallNothing] at hq
    cases hfound : v.found segment.name with
    | nothing => rfl
    | stored w =>
      rw [hfound] at hq
      rw [run_bind_of_ok (run_fetch_stored ..)]
      exact run_narrow_of_callNothing host answer stack s q w hrest hq
    | callable r =>
      rw [hfound] at hq
      exact hq.elim

/-! ### The session around a resolution -/

namespace Session

/-- The session in which a path is followed, once the question is put. -/
def opened (stack : Stack) (s : Session σ) : Session σ :=
  (s.began (.question stack none)).enter.began (.resolution stack)

/-- The session with the answer, once the path has been followed. -/
def closed (stack : Stack) (s : Session σ) : Session σ :=
  (s.ended (.resolution stack)).leave.ended (.question stack none)

@[simp] theorem calls_closed (stack : Stack) (s : Session σ) :
    (s.closed stack).calls = s.calls := by
  simp [calls, closed, ended, note, leave]

end Session

namespace Stack

section

variable (host : Host σ) {stack : Stack} (p : Path) {s : Session σ}

theorem query_resolve_of_lt (hl : s.depth < stack.maxDepth.toNat) : ∃ result s',
    (Lookup.follow host (Lookup.whole host) stack p).run (s.opened stack) = some (result, s') ∧
      stack.query host (.resolve p) s = (result, s'.closed stack) := by
  obtain ⟨result, t, hstep, hquery⟩ :=
    Lookup.run_tracked_eq_some.1 (@query_eq σ host stack (.resolve p) s)
  rcases Lookup.run_guarded_eq_some.1 hstep with ⟨-, result', u, hresolve, hr⟩ | ⟨hge, -⟩
  · obtain ⟨rfl, rfl⟩ := Prod.mk.inj hr
    obtain ⟨result', s', hfollow, hr⟩ := Lookup.run_tracked_eq_some.1 hresolve
    obtain ⟨rfl, rfl⟩ := Prod.mk.inj hr
    exact ⟨result, s', hfollow, hquery⟩
  · exact absurd hl hge

theorem query_resolve_of_not_lt (hl : ¬ s.depth < stack.maxDepth.toNat) :
    stack.query host (.resolve p) s = (.error (.depthExceeded stack.maxDepth),
      ((s.began (.question stack none)).note (.refused stack.maxDepth)).ended
        (.question stack none)) := by
  obtain ⟨result, t, hstep, hquery⟩ :=
    Lookup.run_tracked_eq_some.1 (@query_eq σ host stack (.resolve p) s)
  rcases Lookup.run_guarded_eq_some.1 hstep with ⟨hlt, -⟩ | ⟨-, hr⟩
  · exact absurd hlt hl
  · obtain ⟨rfl, rfl⟩ := Prod.mk.inj hr
    exact hquery

end

theorem logged_narrow (host : Host σ) (stack : Stack) (v : Value) (q : List Segment)
    (s : Session σ) : ∃ result s',
      (Lookup.narrow host (Lookup.whole host) stack v q).run s = some (result, s') ∧
        Session.Logged (2 ^ 64) [.resolution stack] s s' :=
  Lookup.finishes_narrow (Session.invariant_logged _) (Lookup.answersWithin_whole host)
    host.asksWithin stack.maxDepth_le q v s s.within_max

/-! ### Narrowing is exact -/

section

variable (host : Host σ) (stack : Stack) {p : List Segment} (hp : p ≠ []) (q : List Segment)
  {s : Session σ}

include hp

/-- **Where the first part of a path leads nowhere**, or fails, so does the path,
and nothing else has happened. -/
theorem query_append_of_ne
    (h : ∀ v, (stack.query host (.resolve (.segments p)) s).1 ≠ .ok (some v)) :
    stack.query host (.resolve (.segments (p ++ q))) s =
      stack.query host (.resolve (.segments p)) s := by
  by_cases hl : s.depth < stack.maxDepth.toNat
  · obtain ⟨result, t, hfollow, hfirst⟩ := query_resolve_of_lt host (.segments p) hl
    obtain ⟨result', t', hfollow', hwhole⟩ := query_resolve_of_lt host (.segments (p ++ q)) hl
    rw [Lookup.follow_append host _ stack hp q] at hfollow'
    have hsame : (result', t') = (result, t) := by
      match result with
      | .ok (some v) => exact absurd (congrArg Prod.fst hfirst) (h v)
      | .ok none =>
        rw [Lookup.run_bind_of_ok hfollow] at hfollow'
        exact (Option.some.inj hfollow').symm
      | .error e =>
        rw [Lookup.run_bind_of_error hfollow] at hfollow'
        exact (Option.some.inj hfollow').symm
    obtain ⟨rfl, rfl⟩ := Prod.mk.inj hsame
    rw [hwhole, hfirst]
  · rw [query_resolve_of_not_lt host _ hl, query_resolve_of_not_lt host _ hl]

theorem query_append_of_eq {v : Value}
    (h : (stack.query host (.resolve (.segments p)) s).1 = .ok (some v)) : ∃ t result t',
      t.calls = (stack.query host (.resolve (.segments p)) s).2.calls ∧
      (Lookup.narrow host (Lookup.whole host) stack v q).run t = some (result, t') ∧
      stack.query host (.resolve (.segments (p ++ q))) s = (result, t'.closed stack) := by
  by_cases hl : s.depth < stack.maxDepth.toNat
  · obtain ⟨result, t, hfollow, hfirst⟩ := query_resolve_of_lt host (.segments p) hl
    obtain ⟨result', t', hfollow', hwhole⟩ := query_resolve_of_lt host (.segments (p ++ q)) hl
    rw [hfirst] at h
    obtain rfl : result = .ok (some v) := h
    rw [Lookup.follow_append host _ stack hp q, Lookup.run_bind_of_ok hfollow] at hfollow'
    exact ⟨t, result', t', by simp [hfirst], hfollow', hwhole⟩
  · rw [query_resolve_of_not_lt host _ hl] at h
    simp at h

end

theorem query_of_frames_eq (host : Host σ) {only : Stack} {v : Value} (hf : only.frames = [v])
    {q : List Segment} (hq : q ≠ []) (hargs : ∀ segment ∈ q, segment.args = [])
    (hcall : Segment.CallNothing q v) {s : Session σ} (hl : s.depth < only.maxDepth.toNat) :
    (only.query host (.resolve (.segments q)) s).1 = .ok (Segment.target q v) := by
  obtain ⟨result, t, hfollow, hquery⟩ := query_resolve_of_lt host (.segments q) hl
  rw [Lookup.follow_eq_narrow host _ only hf hq,
    Lookup.run_narrow_of_callNothing host _ only _ q v hargs hcall, Option.some.injEq,
    Prod.mk.injEq] at hfollow
  rw [hquery, hfollow.1]

/-- **A path goes on from where its first part leads.** If that is nowhere, or the
first part fails, so does the whole, and nothing else has happened. If it leads to
a value, the whole begins with the same calls; and where the rest has no arguments
and meets no callable, it leads from that value where it leads on any stack with
that value for its only scope. -/
theorem tryResolve_append (host : Host σ) (stack : Stack) {p q : List Segment} (hp : p ≠ [])
    (hq : q ≠ []) (s : Session σ) :
    ((∀ v, (stack.tryResolve host (.segments p) s).1 ≠ .ok (some v)) →
      stack.tryResolve host (.segments (p ++ q)) s = stack.tryResolve host (.segments p) s) ∧
    ∀ v, (stack.tryResolve host (.segments p) s).1 = .ok (some v) →
      (stack.tryResolve host (.segments p) s).2.calls <+:
        (stack.tryResolve host (.segments (p ++ q)) s).2.calls ∧
      ((∀ segment ∈ q, segment.args = []) → Segment.CallNothing q v →
        ∀ (only : Stack) (s' : Session σ), only.frames = [v] →
          s'.depth < only.maxDepth.toNat →
          (stack.tryResolve host (.segments (p ++ q)) s).1 =
            (only.tryResolve host (.segments q) s').1) := by
  unfold tryResolve
  refine ⟨query_append_of_ne host stack hp q, fun v hv => ?_⟩
  obtain ⟨t, result, t', hcalls, hnarrow, hwhole⟩ := query_append_of_eq host stack hp q hv
  rw [hwhole]
  refine ⟨?_, fun hargs hcall only s' hf hl => ?_⟩
  · obtain ⟨_, _, hnarrow', hlogged⟩ := logged_narrow host stack v q t
    obtain ⟨rfl, rfl⟩ := Prod.mk.inj (Option.some.inj (hnarrow'.symm.trans hnarrow))
    rw [← hcalls, Session.calls_closed]
    exact hlogged.calls_prefix
  · rw [Lookup.run_narrow_of_callNothing host _ stack t q v hargs hcall, Option.some.injEq,
      Prod.mk.injEq] at hnarrow
    rw [query_of_frames_eq host hf hq hargs hcall hl, hnarrow.1]

end Stack

/-- A host whose callables all give back nothing. -/
def Host.silent : Host Unit where
  call _ _ _ _ := .done .null

namespace Stack

/-- A stack with an `a` that has a `b`, and another `b` around it. -/
def shadowed : Stack where
  frames := [.map 0 [("a", .map 1 [("b", .text "inner")])], .map 2 [("b", .text "outer")]]

theorem tryResolve_append_shadowed :
    shadowed.tryResolve Host.silent (.segments [.bare "c", .bare "b"]) { state := () } =
      shadowed.tryResolve Host.silent (.segments [.bare "c"]) { state := () } ∧
    (shadowed.tryResolve Host.silent (.segments [.bare "a"]) { state := () }).2.calls <+:
      (shadowed.tryResolve Host.silent (.segments [.bare "a", .bare "b"]) { state := () }).2.calls ∧
    (shadowed.tryResolve Host.silent (.segments [.bare "a", .bare "b"]) { state := () }).1 =
      (Stack.tryResolve Host.silent ⟨[.map 1 [("b", .text "inner")]], 64⟩
        (.segments [.bare "b"]) { state := () }).1 := by
  -- one level is enough where nothing is called
  obtain ⟨_, hc⟩ : ∃ s, (Lookup.answer Host.silent 1 shadowed
    (.resolve (.segments [.bare "c"]))).run { state := () } = some (.ok none, s) := ⟨_, rfl⟩
  obtain ⟨_, ha⟩ : ∃ s, (Lookup.answer Host.silent 1 shadowed
    (.resolve (.segments [.bare "a"]))).run { state := () } =
      some (.ok (some (.map 1 [("b", .text "inner")])), s) := ⟨_, rfl⟩
  obtain ⟨hstop, -⟩ := tryResolve_append Host.silent shadowed (p := [.bare "c"]) (q := [.bare "b"])
    (by simp) (by simp) { state := () }
  obtain ⟨-, hgo⟩ := tryResolve_append Host.silent shadowed (p := [.bare "a"]) (q := [.bare "b"])
    (by simp) (by simp) { state := () }
  obtain ⟨hcalls, hrest⟩ := hgo _ (congrArg Prod.fst (query_eq_of_answer ha))
  refine ⟨hstop fun v hv => ?_, hcalls, ?_⟩
  · rw [tryResolve, query_eq_of_answer hc] at hv
    simp at hv
  · exact hrest (by simp [Segment.args]) trivial ⟨_, 64⟩ { state := () } rfl (by decide)

end Stack

end TagScope
