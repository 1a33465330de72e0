/-
# Any text can be an argument

A text is written as an argument by escaping: a mark before it and behind it,
either of the two, and a backslash before each backslash and each such mark in
it (`Quoted.literal`). Every text survives this, whatever its characters are. The
only characters that mean something else behind a backslash are four letters, and
none of them is written behind one.

So in a list of such literals no text can end early, begin another argument or
close the list: a call has the arguments that were written (`Path.parse_literals`).

Key definitions: `Quoted.Mark`, `Quoted.guard`, `Quoted.literal`.
Key theorems: `Quoted.body_guard`, `Arg.listSpelling_intercalate`, `Path.parse_literals`.
-/
import TagScope.Proofs.AsArgument
import TagScope.Proofs.Printing

namespace TagScope

namespace Quoted

/-- One of the characters that open a quoted text. -/
def Mark : Type := { c : Char // isMark c = true }

/-- A text with a backslash before each backslash and each mark. -/
def guard (mark : Char) (cs : List Char) : List Char :=
  cs.flatMap fun c => if c = '\\' ∨ c = mark then ['\\', c] else [c]

/-- A text as an argument, between two marks. -/
def literal (mark : Mark) (s : String) : String :=
  String.ofList (mark.val :: guard mark.val s.toList ++ [mark.val])

/-- A backslash and a mark mean themselves behind a backslash. -/
theorem unescape_guarded {mark c : Char} (hm : isMark mark = true) (hc : c = '\\' ∨ c = mark) :
    unescape c = c := by
  simp only [isMark, Bool.or_eq_true, decide_eq_true_eq] at hm
  rcases hc with rfl | rfl
  · rfl
  · rcases hm with rfl | rfl <;> rfl

/-- **A guarded text means the text** that it was made from. -/
theorem body_guard {mark : Char} (hm : isMark mark = true) :
    ∀ cs : List Char, Body mark (guard mark cs) cs
  | [] => .nil
  | c :: cs => by
    have hrest := body_guard hm cs
    unfold guard at hrest ⊢
    rw [List.flatMap_cons]
    by_cases hc : c = '\\' ∨ c = mark
    · rw [if_pos hc]
      have hbody := hrest.escaped (c := c)
      rwa [unescape_guarded hm hc] at hbody
    · rw [if_neg hc]
      obtain ⟨hslash, hmark⟩ := not_or.1 hc
      exact .plain hmark hslash hrest

theorem spelling_literal (mark : Mark) (s : String) :
    Arg.Spelling (literal mark s).toList (.literal (.text s)) := by
  have hspelling := Arg.Spelling.text mark.property (body_guard mark.property s.toList)
  rw [String.ofList_toList] at hspelling
  rwa [literal, String.toList_ofList]

end Quoted

namespace Arg

variable {α : Type} {text : α → List Char} {arg : α → Arg}

theorem restSpelling_flatMap (h : ∀ x, Arg.Spelling (text x) (arg x)) : ∀ xs : List α,
    Arg.RestSpelling ((xs.map text).flatMap ([',', ' '] ++ ·)) (xs.map arg)
  | [] => .last fun _ hc => absurd hc List.not_mem_nil
  | x :: xs => by
    have hcomma : Separators [',', ' '] := List.all_eq_true.1 (by decide)
    rw [List.map_cons, List.map_cons, List.flatMap_cons]
    exact .comma hcomma (by simp) (h x) (restSpelling_flatMap h xs)

/-- **Arguments with a comma between each two** are an argument list. -/
theorem listSpelling_intercalate (h : ∀ x, Arg.Spelling (text x) (arg x)) (xs : List α) :
    Arg.ListSpelling ([',', ' '].intercalate (xs.map text)) (xs.map arg) := by
  have hnone : Separators [] := fun _ hc => absurd hc List.not_mem_nil
  cases xs with
  | nil => exact .none hnone
  | cons x xs =>
    rw [List.map_cons, intercalate_cons]
    exact .some hnone (h x) (restSpelling_flatMap h xs)

theorem nestingAll_literals (value : α → Value) : ∀ xs : List α,
    Arg.nestingAll (xs.map fun x => .literal (value x)) = 0
  | [] => rfl
  | x :: xs => by
    rw [List.map_cons, Arg.nestingAll, nestingAll_literals value xs]
    rfl

end Arg

namespace Path

/-- **Any texts can be the arguments of a call.** Take any texts, in any number,
and for each of them either mark. The call with their literals is read as the call
with these texts, and as nothing else. -/
theorem parse_literals (texts : List (Quoted.Mark × String)) :
    parse ("f(" ++ String.intercalate ", " (texts.map fun t => Quoted.literal t.1 t.2) ++ ")") =
      .ok (.segments [.call "f" (texts.map fun t => .literal (.text t.2))]) := by
  have hlist := Arg.listSpelling_intercalate
    (fun t : Quoted.Mark × String => Quoted.spelling_literal t.1 t.2) texts
  refine parse_call_spelling ?_ ?_
  · rw [String.toList_intercalate, List.map_map]
    exact hlist
  · rw [Arg.nestingAll_literals]
    decide

end Path

end TagScope
