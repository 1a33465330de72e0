/-
# Well-formed paths

A path need not have been read from a tag: it can be put together by hand. Such
a path may be none that can be written, say with an empty name or a list as a
literal, and it may be written and not come back. The well-formed paths are
those without such a fault, and each of them is read back from its tag, so that
no two of them share one.

Apart from infinities, which are written as names are, no other path comes back
(`Path.wellFormed_iff`): nothing in the definition could be left out.

Key definitions: `Value.Lasting`, `Path.WellFormed`.
Key theorems: `Path.WellFormed.reread`, `Path.wellFormed_iff`, `Path.parse_toString`.
-/
import TagScope.Proofs.Printing

namespace TagScope

/-- Whether a literal is read back as it is: an integer, a finite number, or a
text none of whose characters is written by its code point. -/
def Value.Lasting : Value → Prop
  | .int _ | .float (.finite _ _) => True
  | .text s => ∀ c ∈ s.toList, ¬ Quoted.Coded c
  | _ => False

theorem Value.Lasting.writable {v : Value} (h : v.Lasting) : v.Writable := by
  match v with
  | .int _ | .text _ | .float (.finite _ _) => trivial
  | .null | .bool _ | .float .nan | .float (.infinity _) | .list _ _ | .map _ _ | .record _ =>
    exact h.elim

theorem Value.lasting_of_writable {v : Value} (h : v.Writable)
    (ht : ∀ s, v = .text s → ∀ c ∈ s.toList, ¬ Quoted.Coded c) : v.Lasting := by
  match v with
  | .text s => exact ht s rfl
  | .int _ | .float (.finite _ _) => trivial
  | .null | .bool _ | .float .nan | .float (.infinity _) | .list _ _ | .map _ _ | .record _ =>
    exact h.elim

namespace Path

/-- A path that can be written as a tag, in every part: there is a segment, or
it is `.`; names are made of letters, numbers, `_` and `-`; the paths among
arguments begin as arguments can; literals last; and argument lists do not nest
too deep. -/
structure WellFormed (p : Path) : Prop where
  writable : p.Writable
  literals : ∀ v ∈ p.literals, v.Lasting
  nesting : p.nesting ≤ maxNesting

theorem WellFormed.reread {p : Path} (h : p.WellFormed) : p.reread = p :=
  p.reread_eq_self_iff.2 fun _ hs => h.literals _ hs

theorem WellFormed.parse_render {p : Path} (h : p.WellFormed) : parse p.render = .ok p := by
  have hl : ∀ v ∈ p.literals, v.Writable := fun v hv => (h.literals v hv).writable
  rw [Path.parse_render h.writable hl h.nesting, h.reread]

/-- **No other path comes back** from its tag, but for some with an infinity. -/
theorem wellFormed_iff (p : Path) : p.WellFormed ↔
    parse p.render = .ok p ∧ ∀ negative, Value.float (.infinity negative) ∉ p.literals := by
  constructor
  · exact fun h => ⟨h.parse_render, fun negative hv => h.literals _ hv⟩
  · rintro ⟨hp, hf⟩
    obtain ⟨hw, hl⟩ := writable_of_parse hp hf
    have hn := (tagSpelling_of_parse hp).2
    rw [Path.parse_render hw hl hn, Except.ok.injEq, reread_eq_self_iff] at hp
    refine ⟨hw, fun v hv => Value.lasting_of_writable (hl v hv) ?_, hn⟩
    rintro s rfl
    exact hp s hv

/-- **A well-formed path comes back from its tag.** So it can be written as a tag,
and as one that no other well-formed path is written as. -/
theorem parse_toString :
    (∀ p : Path, p.WellFormed → parse (toString p) = .ok p) ∧
    (∀ p q : Path, p.WellFormed → q.WellFormed → toString p = toString q → p = q) ∧
    ∀ p : Path, p.WellFormed → ∃ tag, parse tag = .ok p := by
  have back : ∀ p : Path, p.WellFormed → parse (toString p) = .ok p := fun _ h => h.parse_render
  refine ⟨back, fun p q hp hq heq => ?_, fun p hp => ⟨_, back p hp⟩⟩
  have hback := back p hp
  rw [heq, back q hq, Except.ok.injEq] at hback
  exact hback.symm

/-- A path with an argument of every kind. -/
def sample : Path :=
  .segments [.call "f" [.path .current, .literal (.text "it's \"a\"\n"), .literal (.int (-2)),
    .literal (.float (.zero true)), .list [.path (.segments [.bare "array", .bare "0"])]],
    .bare "1-é"]

theorem wellFormed_sample : sample.WellFormed := by
  have hname : ∀ name ∈ ["f", "array", "0", "1-é"], IsName name.toList := by
    have hall : ∀ name ∈ ["f", "array", "0", "1-é"],
        name.toList ≠ [] ∧ name.toList.all isNameChar = true := by decide +kernel
    exact fun name hn => ⟨(hall name hn).1, List.all_eq_true.1 (hall name hn).2⟩
  have hlead : Path.IsReference (.segments [.bare "array", .bare "0"]) := by
    intro s hs
    obtain rfl : Segment.bare "array" = s := by simpa using hs
    refine ⟨⟨'a', ['r', 'r', 'a', 'y'], by decide, by decide⟩, fun h => ?_⟩
    simp [Segment.isCall] at h
  refine ⟨⟨by simp, ⟨hname "f" (by simp), ?_⟩, hname "1-é" (by simp), trivial⟩, ?_, by decide⟩
  · exact ⟨⟨trivial, trivial⟩, trivial, trivial, trivial, ⟨⟨hlead, by simp,
      hname "array" (by simp), hname "0" (by simp), trivial⟩, trivial⟩, trivial⟩
  · intro v hv
    simp only [sample, literals, Segment.literalsAll, Segment.literals, Arg.literalsAll,
      Arg.literals, List.nil_append, List.append_nil, List.cons_append, List.mem_cons,
      List.not_mem_nil, or_false] at hv
    rcases hv with rfl | rfl | rfl
    · have hall : ("it's \"a\"\n".toList.all fun c => !decide (Quoted.Coded c)) = true := by
        decide +kernel
      intro c hc
      simpa using List.all_eq_true.1 hall c hc
    · trivial
    · trivial

theorem parse_toString_sample : sample.WellFormed ∧
    sample.render = "f(., \"it's \\\"a\\\"\\n\", -2, -0.0, array(array.0)).1-é" ∧
    parse (toString sample) = .ok sample :=
  ⟨wellFormed_sample, by decide +kernel, parse_toString.1 sample wellFormed_sample⟩

end Path

end TagScope
