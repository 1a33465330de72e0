/-
# Groups and quoted texts

A group is what stands between a parenthesis and the one that closes it.
Groups nest, and a quoted text inside a group or between groups is passed over
whole, so that its parentheses and commas do not count. `Nesting.step` says
what one character opens or closes; a text is read with it from left to right,
either to the end of a group or as far as a reference goes.

Key definitions: `Nesting`, `Nesting.step`, `Nesting.close`, `Nesting.reach`.
Key theorems: `Nesting.eq_of_close`, `Nesting.append_of_reach`.
-/
import TagScope.SyntaxError

namespace TagScope

/-- Whether a place lies in a quoted text: its mark, and where it was opened. -/
inductive Quote where
  | outside
  | inside (mark : Char) (opened : Nat)
  /-- Behind a backslash. -/
  | escaped (mark : Char) (opened : Nat)
  deriving DecidableEq, Repr

/-- What is open at a place in a text: a quoted text, and so many groups, of
which the outermost was opened at `opened`. -/
structure Nesting where
  quote : Quote := .outside
  depth : Nat := 0
  opened : Nat := 0
  deriving DecidableEq, Repr

namespace Nesting

/-- Whether nothing is open. -/
def isClear (n : Nesting) : Bool := n.depth = 0 && n.quote = .outside

/-- What is open behind the character `c`, which stands at `pos`. -/
def step (pos : Nat) (c : Char) (n : Nesting) : Nesting :=
  match n.quote with
  | .inside mark opened =>
    if c = mark then { n with quote := .outside }
    else if c = '\\' then { n with quote := .escaped mark opened }
    else n
  | .escaped mark opened => { n with quote := .inside mark opened }
  | .outside =>
    if Quoted.isMark c then { n with quote := .inside c pos }
    else if c = '(' then
      { n with depth := n.depth + 1, opened := if n.depth = 0 then pos else n.opened }
    else if c = ')' then { n with depth := n.depth - 1 }
    else n

/-- What is wrong with a text that ends at `pos` while something is open. -/
def fault (pos : Nat) (n : Nesting) : Fault :=
  match n.quote with
  | .outside => ⟨.unclosedParen, .char n.opened '('⟩
  | .inside _ opened => ⟨.unterminatedString, ⟨opened, pos⟩⟩
  | .escaped _ opened => ⟨.unterminatedString, ⟨opened, pos⟩⟩

/-- From a place on where something is open: what stands before the
parenthesis that closes it all, and what follows that. -/
def closeFrom (n : Nesting) (pos : Nat) : List Char → Except Fault (List Char × List Char)
  | [] => .error (n.fault pos)
  | c :: rest =>
    let next := n.step pos c
    if next.isClear then .ok ([], rest)
    else (closeFrom next (pos + c.utf8Size) rest).map (Prod.map (c :: ·) id)

/-- What the parenthesis at `opened` holds, and what follows the one that
closes it, from the text behind it. -/
def close (opened : Nat) (cs : List Char) : Except Fault (List Char × List Char) :=
  closeFrom { depth := 1, opened } (opened + 1) cs

/-- From a place on: what stands before the first comma where nothing is open,
and the text from there on. A comma need not follow, but a parenthesis must
not be closed that is not open. -/
def reachFrom (n : Nesting) (pos : Nat) : List Char → Except Fault (List Char × List Char)
  | [] => if n.isClear then .ok ([], []) else .error (n.fault pos)
  | c :: rest =>
    if n.isClear && c = ',' then .ok ([], c :: rest)
    else if n.isClear && c = ')' then .error ⟨.unmatchedParen, .char pos c⟩
    else (reachFrom (n.step pos c) (pos + c.utf8Size) rest).map (Prod.map (c :: ·) id)

/-- What stands before the first comma outside of groups and quoted texts, and
the text from there on. -/
def reach (pos : Nat) (cs : List Char) : Except Fault (List Char × List Char) :=
  reachFrom {} pos cs

/-- Only a closing parenthesis ends the last group. -/
theorem eq_paren_of_isClear_step {n : Nesting} {pos : Nat} {c : Char} (hd : n.depth ≠ 0)
    (h : (n.step pos c).isClear = true) : c = ')' := by
  unfold step isClear at h
  split at h
  · split at h
    · simp_all
    · split at h <;> simp_all
  · simp_all
  · split at h
    · simp_all
    · split at h
      · simp_all
      · split at h <;> simp_all

/-- A group stays open up to the parenthesis that closes it. -/
theorem depth_step_ne_zero {n : Nesting} {pos : Nat} {c : Char} (hd : n.depth ≠ 0)
    (h : ¬ (n.step pos c).isClear = true) : (n.step pos c).depth ≠ 0 := by
  unfold step isClear at *
  split at h
  · split at h
    · simp_all
    · split at h <;> simp_all
  · simp_all
  · split at h
    · simp_all
    · split at h
      · simp_all
      · split at h <;> simp_all

theorem eq_of_closeFrom : ∀ {cs inside after : List Char} {n : Nesting} {pos : Nat},
    n.depth ≠ 0 → closeFrom n pos cs = .ok (inside, after) → cs = inside ++ ')' :: after
  | [], _, _, _, _, _, h => by simp [closeFrom] at h
  | c :: rest, inside, after, n, pos, hd, h => by
    unfold closeFrom at h
    dsimp only at h
    split at h
    · rename_i hc
      simp only [Except.ok.injEq, Prod.mk.injEq] at h
      rw [← h.1, ← h.2, eq_paren_of_isClear_step hd hc]; rfl
    · rename_i hc
      cases hr : closeFrom (n.step pos c) (pos + c.utf8Size) rest with
      | error => simp [hr, Except.map] at h
      | ok r =>
        simp only [hr, Except.map, Except.ok.injEq, Prod.map, Prod.mk.injEq] at h
        rw [← h.1, ← h.2, eq_of_closeFrom (depth_step_ne_zero hd hc) hr]; rfl

theorem eq_of_close {opened : Nat} {cs inside after : List Char}
    (h : close opened cs = .ok (inside, after)) : cs = inside ++ ')' :: after :=
  eq_of_closeFrom (by simp) h

theorem append_of_reachFrom : ∀ {cs before after : List Char} {n : Nesting} {pos : Nat},
    reachFrom n pos cs = .ok (before, after) → cs = before ++ after
  | [], _, _, n, _, h => by
    unfold reachFrom at h
    split at h <;> simp_all
  | c :: rest, before, after, n, pos, h => by
    unfold reachFrom at h
    split at h
    · simp_all
    · split at h
      · simp at h
      · cases hr : reachFrom (n.step pos c) (pos + c.utf8Size) rest with
        | error => simp [hr, Except.map] at h
        | ok r =>
          simp only [hr, Except.map, Except.ok.injEq, Prod.map, Prod.mk.injEq] at h
          rw [← h.1, ← h.2, append_of_reachFrom hr]; rfl

theorem append_of_reach {pos : Nat} {cs before after : List Char}
    (h : reach pos cs = .ok (before, after)) : cs = before ++ after := append_of_reachFrom h

end Nesting

end TagScope
