/-
# Slices that may not exist

A text is held as its bytes in UTF-8, and a slice of it is named by the bytes where it
begins and ends. There is such a slice only if both are in the text, in this order,
and a character begins there or the text ends. `slice?` gives no slice otherwise, and
`sub?` no difference that would be negative. A reading that is written with them gives
nothing, not even a fault, if it comes to a slice that is not there.

Key definitions: `tail?`, `slice?`, `sub?`, `Guarded`, `answer`.
Key theorems: `tail?_eq_some_iff`, `slice?_eq_some_iff`.
-/
import TagScope.SyntaxError

namespace TagScope
namespace InBytes

/-! ### Slices -/

/-- The text from the byte `pos` on. -/
def tail? : List Char → Nat → Option (List Char)
  | cs, 0 => some cs
  | [], _ + 1 => none
  | c :: cs, pos + 1 => if c.utf8Size ≤ pos + 1 then tail? cs (pos + 1 - c.utf8Size) else none

/-- The first `size` bytes of a text. -/
def head? : List Char → Nat → Option (List Char)
  | _, 0 => some []
  | [], _ + 1 => none
  | c :: cs, size + 1 =>
    if c.utf8Size ≤ size + 1 then (head? cs (size + 1 - c.utf8Size)).map (c :: ·) else none

/-- The text from the byte `start` up to the byte `stop`. -/
def slice? (src : List Char) (start stop : Nat) : Option (List Char) :=
  if start ≤ stop then (tail? src start).bind (head? · (stop - start)) else none

/-- A difference, if it is not negative. -/
def sub? (a b : Nat) : Option Nat := if b ≤ a then some (a - b) else none

theorem tail?_width : ∀ before cs : List Char, tail? (before ++ cs) (width before) = some cs
  | [], cs => by cases cs <;> rfl
  | c :: before, cs => by
    obtain ⟨size, hsize⟩ := Nat.exists_eq_add_one.2 c.utf8Size_pos
    have hwidth : width (c :: before) = size + width before + 1 := by
      rw [width_cons, hsize]
      omega
    have hrest : size + width before + 1 - c.utf8Size = width before := by omega
    rw [List.cons_append, hwidth, tail?, if_pos (by omega), hrest, tail?_width before cs]

theorem head?_width : ∀ cs after : List Char, head? (cs ++ after) (width cs) = some cs
  | [], after => by cases after <;> rfl
  | c :: cs, after => by
    obtain ⟨size, hsize⟩ := Nat.exists_eq_add_one.2 c.utf8Size_pos
    have hwidth : width (c :: cs) = size + width cs + 1 := by
      rw [width_cons, hsize]
      omega
    have hrest : size + width cs + 1 - c.utf8Size = width cs := by omega
    rw [List.cons_append, hwidth, head?, if_pos (by omega), hrest, head?_width cs after]
    rfl

theorem exists_of_tail? : ∀ {src : List Char} {pos : Nat} {cs : List Char},
    tail? src pos = some cs → ∃ before, src = before ++ cs ∧ pos = width before
  | src, 0, cs, h => by
    rw [tail?, Option.some.injEq] at h
    exact ⟨[], h, rfl⟩
  | [], _ + 1, _, h => by simp [tail?] at h
  | c :: src, pos + 1, cs, h => by
    rw [tail?] at h
    obtain ⟨hle, h⟩ := Option.ite_none_right_eq_some.1 h
    obtain ⟨before, rfl, hpos⟩ := exists_of_tail? h
    refine ⟨c :: before, rfl, ?_⟩
    rw [width_cons]
    omega

theorem exists_of_head? : ∀ {cs : List Char} {size : Nat} {ds : List Char},
    head? cs size = some ds → ∃ after, cs = ds ++ after ∧ size = width ds
  | cs, 0, ds, h => by
    rw [head?, Option.some.injEq] at h
    subst h
    exact ⟨cs, rfl, rfl⟩
  | [], _ + 1, _, h => by simp [head?] at h
  | c :: cs, size + 1, ds, h => by
    rw [head?] at h
    obtain ⟨hle, h⟩ := Option.ite_none_right_eq_some.1 h
    obtain ⟨ds, hds, rfl⟩ := Option.map_eq_some_iff.1 h
    obtain ⟨after, rfl, hsize⟩ := exists_of_head? hds
    refine ⟨after, rfl, ?_⟩
    rw [width_cons]
    omega

variable {src cs mid after : List Char} {c : Char} {pos start stop : Nat}

/-- **Where the rest of a text begins**, so many bytes are before it. -/
theorem tail?_eq_some_iff :
    tail? src pos = some cs ↔ ∃ before, src = before ++ cs ∧ pos = width before := by
  refine ⟨exists_of_tail?, ?_⟩
  rintro ⟨before, rfl, rfl⟩
  exact tail?_width before cs

theorem tail?_add (h : tail? src pos = some (mid ++ after)) :
    tail? src (pos + width mid) = some after := by
  obtain ⟨before, rfl, rfl⟩ := tail?_eq_some_iff.1 h
  rw [← List.append_assoc, ← width_append, tail?_width]

theorem tail?_next (h : tail? src pos = some (c :: cs)) :
    tail? src (pos + c.utf8Size) = some cs := by
  have hnext := @tail?_add src [c] cs pos h
  rwa [width_cons, width_nil, Nat.add_zero] at hnext

theorem width_of_tail? (h : tail? src pos = some cs) : width src = pos + width cs := by
  obtain ⟨before, rfl, rfl⟩ := tail?_eq_some_iff.1 h
  exact width_append ..

theorem lt_of_tail? (h : tail? src pos = some (c :: cs)) : pos < width src := by
  have hwidth := width_of_tail? h
  have hsize := c.utf8Size_pos
  rw [width_cons] at hwidth
  omega

/-- **A slice exists** exactly between two pieces of the text. -/
theorem slice?_eq_some_iff : slice? src start stop = some mid ↔
    ∃ before after, src = before ++ mid ++ after ∧ start = width before ∧
      stop = width before + width mid := by
  unfold slice?
  constructor
  · intro h
    obtain ⟨hle, h⟩ := Option.ite_none_right_eq_some.1 h
    obtain ⟨cs, htail, hhead⟩ := Option.bind_eq_some_iff.1 h
    obtain ⟨before, rfl, rfl⟩ := tail?_eq_some_iff.1 htail
    obtain ⟨after, rfl, hsize⟩ := exists_of_head? hhead
    exact ⟨before, after, by simp, rfl, by omega⟩
  · rintro ⟨before, after, rfl, rfl, rfl⟩
    rw [if_pos (Nat.le_add_right ..), List.append_assoc, tail?_width, Option.bind_some,
      Nat.add_sub_cancel_left, head?_width]

theorem slice?_of_tail? (h : tail? src pos = some (mid ++ after)) :
    slice? src pos (pos + width mid) = some mid := by
  obtain ⟨before, rfl, rfl⟩ := tail?_eq_some_iff.1 h
  exact slice?_eq_some_iff.2 ⟨before, after, by simp, rfl, rfl⟩

theorem tail?_of_slice? (h : slice? src start stop = some mid) :
    (∃ after, tail? src start = some (mid ++ after)) ∧ stop = start + width mid := by
  obtain ⟨before, after, rfl, rfl, rfl⟩ := slice?_eq_some_iff.1 h
  exact ⟨⟨after, by rw [List.append_assoc, tail?_width]⟩, rfl⟩

theorem slice?_left (h : slice? src start stop = some (cs ++ after)) :
    slice? src start (start + width cs) = some cs := by
  obtain ⟨⟨rest, htail⟩, -⟩ := tail?_of_slice? h
  rw [List.append_assoc] at htail
  exact slice?_of_tail? htail

theorem slice?_right (h : slice? src start stop = some (cs ++ after)) :
    slice? src (start + width cs) stop = some after := by
  obtain ⟨⟨rest, htail⟩, rfl⟩ := tail?_of_slice? h
  rw [List.append_assoc] at htail
  rw [width_append, ← Nat.add_assoc]
  exact slice?_of_tail? (tail?_add htail)

theorem slice?_next (h : slice? src start stop = some (c :: cs)) :
    slice? src (start + c.utf8Size) stop = some cs := by
  have hnext := @slice?_right src [c] cs start stop h
  rwa [width_cons, width_nil, Nat.add_zero] at hnext

theorem slice?_slice? {first last : Nat} (h : slice? src start stop = some mid)
    (h' : slice? mid first last = some cs) :
    slice? src (first + start) (last + start) = some cs := by
  obtain ⟨before, after, rfl, rfl, rfl⟩ := slice?_eq_some_iff.1 h'
  have hright := slice?_right (by rwa [List.append_assoc] at h)
  have hleft := slice?_left hright
  rwa [Nat.add_comm start, Nat.add_right_comm] at hleft

theorem exists_slice? {rest : List Char} (h : tail? src start = some cs)
    (h' : tail? src stop = some rest) (hle : start ≤ stop) :
    ∃ mid, cs = mid ++ rest ∧ slice? src start stop = some mid := by
  obtain ⟨before, hsrc, rfl⟩ := tail?_eq_some_iff.1 h
  obtain ⟨before', hsrc', rfl⟩ := tail?_eq_some_iff.1 h'
  rcases List.append_eq_append_iff.1 (hsrc.symm.trans hsrc') with ⟨mid, rfl, rfl⟩ | ⟨more, rfl, rfl⟩
  · refine ⟨mid, rfl, ?_⟩
    rw [width_append]
    exact slice?_of_tail? h
  · -- no characters take no bytes
    cases more with
    | nil => exact ⟨[], rfl, by simpa using @slice?_of_tail? src [] _ _ h⟩
    | cons c more =>
      have hsize := c.utf8Size_pos
      rw [width_append, width_cons] at hle
      omega

theorem sub?_add (a b : Nat) : sub? (a + b) b = some a := by
  rw [sub?, if_pos (Nat.le_add_left ..), Nat.add_sub_cancel]

/-! ### Answers -/

/-- What a reading gives: something, or a fault, or nothing at all if it comes to a slice or
a difference that does not exist. -/
abbrev Guarded := ExceptT Fault Option

variable {α β : Type}

/-- A reading that does not come to a slice that does not exist. -/
def answer (x : Except Fault α) : Guarded α := ExceptT.mk (some x)

@[simp] theorem answer_ok_bind (a : α) (f : α → Guarded β) : (answer (.ok a) >>= f) = f a := rfl

@[simp] theorem answer_map (f : α → β) (x : Except Fault α) :
    f <$> answer x = answer (x.map f) := by
  cases x <;> rfl

@[simp] theorem lift_some_bind (a : α) (f : α → Guarded β) :
    ((liftM (some a) : Guarded α) >>= f) = f a := rfl

theorem guarded_cases (x : Guarded α) :
    x = none ∨ (∃ fault, x = answer (.error fault)) ∨ ∃ a, x = answer (.ok a) := by
  rcases x with - | (fault | a)
  · exact Or.inl rfl
  · exact Or.inr (Or.inl ⟨fault, rfl⟩)
  · exact Or.inr (Or.inr ⟨a, rfl⟩)

theorem bind_eq_ok {x : Guarded α} {f : α → Guarded β} {b : β} :
    (x >>= f) = answer (.ok b) ↔ ∃ a, x = answer (.ok a) ∧ f a = answer (.ok b) := by
  constructor
  · intro h
    rcases x with - | (fault | a)
    · cases h
    · cases h
    · exact ⟨a, rfl, h⟩
  · rintro ⟨a, rfl, h⟩
    exact h

theorem lift_bind_eq_ok {x : Option α} {f : α → Guarded β} {b : β} :
    ((liftM x : Guarded α) >>= f) = answer (.ok b) ↔ ∃ a, x = some a ∧ f a = answer (.ok b) := by
  constructor
  · intro h
    cases x with
    | none => cases h
    | some a => exact ⟨a, rfl, h⟩
  · rintro ⟨a, rfl, h⟩
    exact h

end InBytes
end TagScope
