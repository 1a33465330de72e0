/-
# Levels do not matter

Lookups are carried out to a number of levels, and a session provides enough of
them. A lookup that has an answer has the same answer with more levels
(`Lookup.extends_answer`), so it does not matter how many there are, and a lookup
is a step whose questions are answered by whole lookups again
(`Stack.query_eq`). That equation no longer speaks of levels.

Key definitions: `Run.Extends`, `Lookup.whole`.
Key theorems: `Lookup.extends_answer`, `Stack.query_eq_of_answer`, `Stack.query_eq`.
-/
import TagScope.Lookup.Basic
import TagScope.Proofs.Congruence

namespace TagScope

variable {σ α β : Type}

/-- What one computation ends with, the other ends with too. -/
def Run.Extends (more less : Run σ α) : Prop := ∀ s r, less s = some r → more s = some r

namespace Run.Extends

theorem refl (m : Run σ α) : Extends m m := fun _ _ h => h

theorem bind {more less : Run σ α} {f g : α → Run σ β} (hm : Extends more less)
    (hf : ∀ a, Extends (f a) (g a)) : Extends (more >>= f) (less >>= g) := by
  intro s r h
  obtain ⟨a, s', ha, hr⟩ := Run.bind_eq_some.1 h
  exact Run.bind_eq_some.2 ⟨a, s', hm s _ ha, hf a s' r hr⟩

theorem guarded {limit : UInt64} {more less : Lookup σ α} (h : Extends more.run less.run) :
    Extends (Lookup.guarded limit more).run (Lookup.guarded limit less).run := by
  intro s r hr
  rw [Lookup.run_guarded_eq_some] at hr ⊢
  rcases hr with ⟨hl, result, s', hbody, hr⟩ | hr
  · exact Or.inl ⟨hl, result, s', h _ _ hbody, hr⟩
  · exact Or.inr hr

theorem tracked {activity : Activity} {more less : Lookup σ α} (h : Extends more.run less.run) :
    Extends (Lookup.tracked activity more).run (Lookup.tracked activity less).run := by
  intro s r hr
  rw [Lookup.run_tracked_eq_some] at hr ⊢
  obtain ⟨result, s', hbody, hr⟩ := hr
  exact ⟨result, s', h _ _ hbody, hr⟩

theorem congruence : Run.Congruence (@Extends σ) where
  pure _ := refl _
  bind := bind
  build _ := refl _
  receive _ := refl _
  depth := refl _
  state := refl _
  write _ := refl _
  guarded _ := guarded
  tracked _ := tracked

end Run.Extends

open Run

namespace Lookup

variable {host : Host σ}

theorem extends_answer_succ : ∀ (levels : Nat) (stack : Stack) (query : Query),
    Extends (answer host (levels + 1) stack query).run (answer host levels stack query).run
  | 0, _, _ => fun _ _ h => absurd h (by simp [answer, exhausted])
  | levels + 1, stack, query =>
    .tracked (Extends.congruence.step (extends_answer_succ levels) host stack query)

/-- **An answer stays the same** with more levels. -/
theorem extends_answer {levels more : Nat} (hl : levels ≤ more) (stack : Stack) (query : Query) :
    Extends (answer host more stack query).run (answer host levels stack query).run := by
  induction hl with
  | refl => exact .refl _
  | step _ ih => exact fun s r h => extends_answer_succ _ stack query s r (ih s r h)

/-- Answers to all questions. -/
def whole (host : Host σ) (stack : Stack) (query : Query) : Lookup σ (Option Value) :=
  ExceptT.mk fun s => some (stack.query host query s)

end Lookup

namespace Stack

variable {host : Host σ} {stack : Stack} {query : Query}

theorem answer_levels (host : Host σ) (s : Session σ) :
    (Lookup.answer host s.levels stack query).run s = some (stack.query host query s) :=
  (Option.some_get _).symm

theorem query_eq_of_answer {levels : Nat} {s : Session σ}
    {r : Except LookupError (Option Value) × Session σ}
    (h : (Lookup.answer host levels stack query).run s = some r) :
    stack.query host query s = r := by
  have hl := Lookup.extends_answer (Nat.le_max_left levels s.levels) stack query s r h
  have hr := Lookup.extends_answer (Nat.le_max_right levels s.levels) stack query s _
    (answer_levels host s)
  exact Option.some.inj (hr.symm.trans hl)

/-- **A lookup is a step** whose questions are answered by lookups. -/
theorem query_eq (s : Session σ) :
    (Lookup.tracked (.question stack query.name?)
      (Lookup.step host (Lookup.whole host) stack query)).run s =
        some (stack.query host query s) := by
  have hl := Lookup.extends_answer_succ s.levels stack query s _ (answer_levels host s)
  refine Extends.tracked (Extends.congruence.step (fun stack query s r h => ?_) host stack query)
    s _ hl
  exact congrArg some (query_eq_of_answer h)

end Stack

end TagScope
