/-
# Every lookup ends

What holds between a session before a lookup and the session after it is
shown for all lookups at once. A relation of sessions is an invariant if it
leads through the small steps of a lookup and closes around whatever begins and
ends in it: a question, and what is counted. It may depend on what is in progress
around the lookup. Then it holds from the beginning of every lookup to its end
(`Lookup.finishes_answer`).

That there is an end is part of it. The count of activities in progress is the
same after a lookup as before it, and below the limit whenever one more begins.
If no limit exceeds `bound`, a lookup that begins with `depth` in progress nests
at most `bound - depth` further levels, and with one level more it never runs
out of them, whatever the callables do. A limit is a 64-bit word, which bounds
all of them.

Key definitions: `Activity.ArisesIn`, `Session.Invariant`, `Run.Finishes`, `Session.levels`.
Key theorems: `Lookup.finishes_answer`, `Routine.finishes_run`.
-/
import TagScope.Lookup.Answer

namespace TagScope

variable {σ α β : Type}

/-- What an activity begins in: a path is resolved where it is asked for, and a
callable is called where its name is asked for or comes up in a path, each on the
stack of the question. A question can be put anywhere. -/
def Activity.ArisesIn : Activity → Activity → Prop
  | .question .., _ => True
  | .resolution stack, outer => outer = .question stack none
  | .call stack member _, outer =>
    outer = .question stack (some member) ∨ outer = .resolution stack

theorem Activity.ArisesIn.stack_eq {activity outer : Activity} (h : activity.ArisesIn outer)
    (hc : activity.isCounted = true) : outer.stack = activity.stack := by
  cases activity with
  | question => simp [isCounted] at hc
  | resolution stack =>
    obtain rfl := h
    rfl
  | call stack member args => rcases h with rfl | rfl <;> rfl

/-- A relation between the sessions before and after a computation that every
lookup keeps, as long as no limit exceeds `bound`. It may depend on the activities
in progress, of which the innermost is first. -/
structure Session.Invariant (bound : Nat) (R : List Activity → Session σ → Session σ → Prop) :
    Prop where
  /-- The count is as it was. -/
  depth : ∀ {ongoing s s'}, R ongoing s s' → s'.depth = s.depth
  /-- Steps that neither count nor tell anything. -/
  quiet : ∀ {ongoing s s'}, s'.depth = s.depth → s'.journal = s.journal → R ongoing s s'
  trans : ∀ {ongoing s s' s''}, R ongoing s s' → R ongoing s' s'' → R ongoing s s''
  refused : ∀ {ongoing s} outer, outer.stack.maxDepth.toNat ≤ s.depth →
    R (outer :: ongoing) s (s.note (.refused outer.stack.maxDepth))
  asked : ∀ {ongoing s s'} stack name?,
    R (.question stack name? :: ongoing) (s.began (.question stack name?)) s' →
    R ongoing s (s'.ended (.question stack name?))
  /-- From where the count is taken to where it is given back. -/
  counted : ∀ {ongoing} {s t s' : Session σ} outer activity, activity.isCounted = true →
    activity.ArisesIn outer → activity.stack.maxDepth.toNat ≤ bound →
    s.depth < activity.stack.maxDepth.toNat → t.depth = s.enter.depth →
    t.journal = s.enter.journal →
    R (activity :: outer :: ongoing) (t.began activity) s' →
    R (outer :: ongoing) s (s'.ended activity).leave

/-- The computation ends, and `R` holds between its beginning and its end. -/
def Run.Finishes (R : Session σ → Session σ → Prop) (m : Run σ α) (s : Session σ) : Prop :=
  ∃ a s', m s = some (a, s') ∧ R s s'

/-- So many levels answer any question in this session. -/
def Session.Within (bound levels : Nat) (s : Session σ) : Prop :=
  0 < levels ∧ bound < s.depth + levels

/-- Below a limit there is room for one activity more. -/
theorem Session.Within.enter {bound levels : Nat} {s : Session σ} {limit : UInt64}
    (h : s.Within bound (levels + 1)) (hb : limit.toNat ≤ bound) (hl : s.depth < limit.toNat) :
    s.enter.Within bound levels := by
  unfold Within at *
  show 0 < levels ∧ bound < s.depth + 1 + levels
  omega

theorem Session.Within.of_depth_eq {bound levels : Nat} {s s' : Session σ}
    (h : s.Within bound levels) (hd : s'.depth = s.depth) : s'.Within bound levels := by
  unfold Within at *
  rwa [hd]

theorem Session.Within.succ {bound levels : Nat} {s : Session σ} (h : s.Within bound levels) :
    s.Within bound (levels + 1) := by
  unfold Within at *
  omega

namespace Session.Invariant

variable {bound : Nat} {R : List Activity → Session σ → Session σ → Prop}
  (inv : Invariant bound R) {ongoing : List Activity}

include inv

theorem refl (s : Session σ) : R ongoing s s := inv.quiet rfl rfl

theorem pure (a : α) (s : Session σ) : Run.Finishes (R ongoing) (Pure.pure a : Run σ α) s :=
  ⟨a, s, rfl, inv.refl s⟩

theorem bind {m : Run σ α} {f : α → Run σ β} {s : Session σ} (hm : Run.Finishes (R ongoing) m s)
    (hf : ∀ a s', R ongoing s s' → Run.Finishes (R ongoing) (f a) s') :
    Run.Finishes (R ongoing) (m >>= f) s := by
  obtain ⟨a, s', hm, hr⟩ := hm
  obtain ⟨b, s'', hf, hr'⟩ := hf a s' hr
  refine ⟨b, s'', ?_, inv.trans hr hr'⟩
  show (m s).bind (fun r => f r.1 r.2) = _
  rw [hm]
  exact hf

theorem bindLookup {m : Lookup σ α} {f : α → Lookup σ β} {s : Session σ}
    (hm : Run.Finishes (R ongoing) m.run s)
    (hf : ∀ a s', R ongoing s s' → Run.Finishes (R ongoing) (f a).run s') :
    Run.Finishes (R ongoing) (m >>= f).run s := by
  refine inv.bind hm fun r s' hr => ?_
  cases r with
  | ok a => exact hf a s' hr
  | error e => exact inv.pure _ _

theorem modified (f : Session σ → Session σ) (hd : ∀ s, (f s).depth = s.depth)
    (hj : ∀ s, (f s).journal = s.journal) (s : Session σ) :
    Run.Finishes (R ongoing) (modify f : Run σ PUnit) s := ⟨⟨⟩, f s, rfl, inv.quiet (hd s) (hj s)⟩

theorem build (items : List Value) (s : Session σ) :
    Run.Finishes (R ongoing) (Run.build items : Run σ Value) s := ⟨_, _, rfl, inv.quiet rfl rfl⟩

/-- A guarded lookup ends if what it guards carries out one activity, which is only
tried below the limit. -/
theorem guarded {outer : Activity} (activity : Activity) (hc : activity.isCounted = true)
    (ha : activity.ArisesIn outer) (hb : activity.stack.maxDepth.toNat ≤ bound)
    {body : Lookup σ α} {s : Session σ}
    (h : s.depth < activity.stack.maxDepth.toNat → ∃ result, ∃ t s' : Session σ,
      body.run s.enter = some (result, s'.ended activity) ∧ t.depth = s.enter.depth ∧
        t.journal = s.enter.journal ∧ R (activity :: outer :: ongoing) (t.began activity) s') :
    Run.Finishes (R (outer :: ongoing)) (Lookup.guarded activity.stack.maxDepth body).run s := by
  unfold Run.Finishes
  show ∃ a s', (if s.depth < activity.stack.maxDepth.toNat then _ else _) = _ ∧ _
  by_cases hl : s.depth < activity.stack.maxDepth.toNat
  · obtain ⟨result, t, s', hbody, hd, hj, hr⟩ := h hl
    refine ⟨result, (s'.ended activity).leave, ?_, inv.counted outer activity hc ha hb hl hd hj hr⟩
    rw [if_pos hl, hbody]
    rfl
  · have hlimit := ha.stack_eq hc ▸ Nat.not_lt.1 hl
    exact ⟨_, _, if_neg hl, ha.stack_eq hc ▸ inv.refused outer hlimit⟩

end Session.Invariant

/-- What is carried out in the midst of an activity is carried out as that activity. -/
theorem Run.Finishes.tracked {R : Session σ → Session σ → Prop} {activity : Activity}
    {body : Lookup σ α} {s : Session σ} (h : Run.Finishes R body.run (s.began activity)) :
    ∃ result s', (Lookup.tracked activity body).run s = some (result, s'.ended activity) ∧
      R (s.began activity) s' := by
  obtain ⟨result, s', hbody, hr⟩ := h
  exact ⟨result, s', Lookup.run_tracked_eq_some.2 ⟨result, s', hbody, rfl⟩, hr⟩

section

variable {bound levels : Nat} {R : List Activity → Session σ → Session σ → Prop}

/-- Answers that are given wherever there are enough levels, on stacks within
the bound. -/
def Lookup.AnswersWithin (R : List Activity → Session σ → Session σ → Prop) (bound levels : Nat)
    (answer : Stack → Query → Lookup σ (Option Value)) : Prop :=
  ∀ ongoing stack query s, stack.maxDepth.toNat ≤ bound → s.Within bound levels →
    Run.Finishes (R ongoing) (answer stack query).run s

variable (inv : Session.Invariant bound R) {answer : Stack → Query → Lookup σ (Option Value)}
  (ha : Lookup.AnswersWithin R bound levels answer) {ongoing : List Activity}

include inv ha

variable (ongoing) in
/-- A routine ends if its questions are answered. -/
theorem Routine.finishes_run : ∀ (r : Routine σ) (s : Session σ), r.AsksWithin bound →
    s.Within bound levels → Run.Finishes (R ongoing) (r.run answer) s
  | .done _, s, _, _ => inv.pure _ s
  | .fail _, s, _, _ => inv.pure _ s
  | .ask stack query next, s, hr, h =>
    inv.bind (ha ongoing stack query s hr.1 h) fun r _ hs =>
      finishes_run (next r) _ (hr.2 r) (h.of_depth_eq (inv.depth hs))
  | .build items next, s, hr, h =>
    inv.bind (inv.build items s) fun v _ hs =>
      finishes_run (next v) _ (hr v) (h.of_depth_eq (inv.depth hs))
  | .depth next, s, hr, h => finishes_run (next s.depth) s (hr _) h
  | .read next, s, hr, h => finishes_run (next s.state) s (hr _) h
  | .write state next, s, hr, h =>
    inv.bind (inv.modified (fun s => { s with state }) (fun _ => rfl) (fun _ => rfl) s)
      fun _ _ hs => finishes_run next _ hr (h.of_depth_eq (inv.depth hs))

namespace Lookup

variable {host : Host σ} (hh : host.AsksWithin bound) {stack : Stack}
  (hb : stack.maxDepth.toNat ≤ bound)

include hh hb

variable (ongoing) in
theorem finishes_call (r : Record) (member : String) (args : List Value) (s : Session σ)
    (h : s.Within bound levels) : ∃ result s', (call host answer stack r member args).run s =
      some (result, s'.ended (.call stack member args)) ∧
      R (.call stack member args :: ongoing) (s.began (.call stack member args)) s' := by
  have hbegan : (s.began (.call stack member args)).Within bound levels := h.of_depth_eq rfl
  have hroutine := Routine.finishes_run inv ha (.call stack member args :: ongoing) _ _
    (hh r member args stack hb) hbegan
  have hlift := inv.bind hroutine fun result _ _ => inv.pure (.ok result : Except LookupError _) _
  refine Run.Finishes.tracked (inv.bindLookup hlift fun result _ _ => ?_)
  cases result <;> exact inv.pure _ _

variable {outer : Activity}

theorem finishes_member (scope : Value) (id : String) (args : List Passed) (s : Session σ)
    (hcalls : ∀ values, (Activity.call stack id values).ArisesIn outer)
    (h : s.Within bound (levels + 1)) :
    Run.Finishes (R (outer :: ongoing)) (member host answer stack scope id args).run s := by
  unfold member
  split
  · exact inv.pure _ _
  · exact inv.pure _ _
  · exact inv.pure _ _
  · rename_i r _
    split
    · obtain ⟨values, t, hreceive, hd, hj⟩ : ∃ values t, (receive args).run s.enter =
          some (.ok values, t) ∧ t.depth = s.enter.depth ∧ t.journal = s.enter.journal :=
        ⟨_, _, rfl, rfl, rfl⟩
      refine inv.guarded (.call stack id values) rfl (hcalls values) hb fun hl => ?_
      have hwithin : t.Within bound levels := (h.enter hb hl).of_depth_eq hd
      obtain ⟨result, s', hcall, hr⟩ :=
        finishes_call inv ha (outer :: ongoing) hh hb r id values t hwithin
      refine ⟨result.map some, t, s', ?_, hd, hj, hr⟩
      rw [run_bind_of_ok hreceive]
      cases result with
      | ok v => exact run_bind_of_ok hcall _
      | error e => exact run_bind_of_error hcall _
    · split <;> exact inv.pure _ _

theorem finishes_findIn (id : String) (args : List Passed)
    (hcalls : ∀ values, (Activity.call stack id values).ArisesIn outer) :
    ∀ (scopes : List Value) (s : Session σ), s.Within bound (levels + 1) →
    Run.Finishes (R (outer :: ongoing)) (findIn host answer stack id args scopes).run s
  | [], s, _ => inv.pure _ s
  | scope :: outer, s, h =>
    inv.bindLookup (finishes_member inv ha hh hb scope id args s hcalls h) fun found s₁ h₁ =>
      match found with
      | some _ => inv.pure _ _
      | none => finishes_findIn id args hcalls outer s₁ (h.of_depth_eq (inv.depth h₁))

omit inv ha hh hb

mutual

theorem finishes_evaluate (inv : Session.Invariant bound R)
    {resolve : Path → Lookup σ (Option Value)}
    (hr : ∀ p s, s.Within bound levels → Run.Finishes (R ongoing) (resolve p).run s) :
    ∀ (a : Arg) (s : Session σ), s.Within bound levels →
    Run.Finishes (R ongoing) (evaluate resolve a).run s
  | .literal _, s, _ => inv.pure _ s
  | .path p, s, h => inv.bindLookup (hr p s h) fun _ _ _ => inv.pure _ _
  | .list items, s, h =>
    inv.bindLookup (finishes_evaluateAll inv hr items s h) fun _ _ _ => inv.pure _ _

theorem finishes_evaluateAll (inv : Session.Invariant bound R)
    {resolve : Path → Lookup σ (Option Value)}
    (hr : ∀ p s, s.Within bound levels → Run.Finishes (R ongoing) (resolve p).run s) :
    ∀ (as : List Arg) (s : Session σ), s.Within bound levels →
    Run.Finishes (R ongoing) (evaluateAll resolve as).run s
  | [], s, _ => inv.pure _ s
  | a :: as, s, h =>
    inv.bindLookup (finishes_evaluate inv hr a s h) fun _ s₁ h₁ =>
      have h' := h.of_depth_eq (inv.depth h₁)
      inv.bindLookup (finishes_evaluateAll inv hr as s₁ h') fun _ _ _ => inv.pure _ _

end

include inv ha hb

theorem finishes_arguments (segment : Segment) (s : Session σ) (h : s.Within bound levels) :
    Run.Finishes (R ongoing) (arguments answer stack segment).run s :=
  finishes_evaluateAll inv (fun p s h => ha ongoing stack (.resolve p) s hb h) segment.args s h

include hh

theorem finishes_narrow : ∀ (segments : List Segment) (v : Value) (s : Session σ),
    s.Within bound levels → Run.Finishes (R (.resolution stack :: ongoing))
      (narrow host answer stack v segments).run s
  | [], _, s, _ => inv.pure _ s
  | segment :: rest, v, s, h =>
    inv.bindLookup (finishes_arguments inv ha hb segment s h) fun args s₁ h₁ =>
      have h' := h.of_depth_eq (inv.depth h₁)
      inv.bindLookup (finishes_member inv ha hh hb v _ args s₁ (fun _ => Or.inr rfl) h'.succ) fun found s₂ h₂ =>
          match found with
          | some w => finishes_narrow rest w s₂ (h'.of_depth_eq (inv.depth h₂))
          | none => inv.pure _ _

theorem finishes_follow (p : Path) (s : Session σ) (h : s.Within bound levels) :
    Run.Finishes (R (.resolution stack :: ongoing)) (follow host answer stack p).run s := by
  match p with
  | .current => exact inv.pure _ s
  | .segments [] => exact inv.pure _ s
  | .segments (segment :: rest) =>
    refine inv.bindLookup (finishes_arguments inv ha hb segment s h) fun args s₁ h₁ => ?_
    have h' := h.of_depth_eq (inv.depth h₁)
    refine inv.bindLookup (finishes_findIn inv ha hh hb _ args (fun _ => Or.inr rfl) _ s₁ h'.succ)
      fun found s₂ h₂ => ?_
    match found with
    | some v => exact finishes_narrow inv ha hh hb rest v s₂ (h'.of_depth_eq (inv.depth h₂))
    | none => exact inv.pure _ _

theorem finishes_step (query : Query) (s : Session σ) (h : s.Within bound (levels + 1)) :
    Run.Finishes (R (.question stack query.name? :: ongoing))
      (step host answer stack query).run s := by
  cases query with
  | find id args => exact finishes_findIn inv ha hh hb id _ (fun _ => Or.inl rfl) _ s h
  | resolve p =>
    refine inv.guarded (.resolution stack) rfl rfl hb fun hl => ?_
    have hwithin : (s.enter.began (.resolution stack)).Within bound levels :=
      (h.enter hb hl).of_depth_eq rfl
    obtain ⟨result, s', hfollow, hr⟩ := (finishes_follow inv ha hh hb p _ hwithin).tracked
    exact ⟨result, s.enter, s', hfollow, rfl, rfl, hr⟩

end Lookup

end

/-- With enough levels every question is answered, or its lookup fails. -/
theorem Lookup.finishes_answer {bound : Nat} {R : List Activity → Session σ → Session σ → Prop}
    (inv : Session.Invariant bound R) {host : Host σ} (hh : host.AsksWithin bound) :
    ∀ levels, AnswersWithin R bound levels (answer host levels)
  | 0 => fun _ _ _ _ _ h => absurd h.1 (Nat.lt_irrefl 0)
  | levels + 1 => fun ongoing stack query s hb h => by
    have hwithin : (s.began (.question stack query.name?)).Within bound (levels + 1) :=
      h.of_depth_eq rfl
    obtain ⟨result, s', hstep, hr⟩ :=
      (finishes_step inv (finishes_answer inv hh levels) hh hb query _ hwithin).tracked
    exact ⟨result, _, hstep, inv.asked stack _ hr⟩

/-! ### Without a bound -/

theorem Session.invariant_depth (bound : Nat) :
    Session.Invariant bound fun _ (s s' : Session σ) => s'.depth = s.depth where
  depth h := h
  quiet h _ := h
  trans h h' := h'.trans h
  refused _ _ := rfl
  asked _ _ h := h
  counted {_ s t s'} _ activity _ _ _ _ hd _ h := by
    have hinner : s'.depth = t.depth := h
    show s'.depth - 1 = s.depth
    rw [hinner, hd]
    exact Nat.add_sub_cancel ..

/-- The levels that answer any question in this session. -/
def Session.levels (s : Session σ) : Nat := 2 ^ 64 - s.depth + 1

theorem Session.within_levels (s : Session σ) : s.Within (2 ^ 64) s.levels := by
  unfold Within levels
  omega

theorem Host.asksWithin (host : Host σ) : host.AsksWithin (2 ^ 64) :=
  fun _ _ _ _ _ => Routine.asksWithin_of_le (Nat.le_refl _) _

theorem Stack.maxDepth_le (stack : Stack) : stack.maxDepth.toNat ≤ 2 ^ 64 :=
  Nat.le_of_lt stack.maxDepth.toNat_lt

/-- Every question is answered with the levels of the session. -/
theorem Lookup.isSome_answer (host : Host σ) (stack : Stack) (query : Query) (s : Session σ) :
    ((answer host s.levels stack query).run s).isSome := by
  obtain ⟨a, s', h, -⟩ := finishes_answer (Session.invariant_depth _) host.asksWithin s.levels
    [] stack query s stack.maxDepth_le s.within_levels
  rw [h]
  rfl

/-- Every routine ends with the levels of the session. -/
theorem Routine.isSome_run (host : Host σ) (r : Routine σ) (s : Session σ) :
    (r.run (Lookup.answer host s.levels) s).isSome := by
  have inv := @Session.invariant_depth σ (2 ^ 64)
  obtain ⟨a, s', h, -⟩ := finishes_run inv (Lookup.finishes_answer inv host.asksWithin s.levels)
    [] r s (asksWithin_of_le (Nat.le_refl _) r) s.within_levels
  rw [h]
  rfl

end TagScope
