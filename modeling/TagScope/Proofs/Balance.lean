/-
# Balanced texts

A text is balanced when every parenthesis in it that does not stand in a quoted
text has its partner. What `Nesting.step` does over a balanced text can be said
without following it: where something is open before the text, the same is open
behind it and something stays open in between; where nothing is, nothing is
behind it. So a parenthesis that opens a group is closed by the one behind the
balanced text that follows it (`Nesting.close_of_balanced`), and a reference
reaches as far as a balanced text without commas of its own does
(`Nesting.reachFrom_append`).

Key definitions: `Nesting.after`, `Nesting.StaysOpen`, `Nesting.Passes`, `Balanced`.
Key theorems: `Balanced.after_eq`, `Balanced.passes`, `Nesting.close_of_balanced`.
-/
import TagScope.Proofs.Spelling

namespace TagScope

namespace Nesting

/-- What is open behind a text that begins at `pos`. -/
def after : Nesting → Nat → List Char → Nesting
  | n, _, [] => n
  | n, pos, c :: cs => after (n.step pos c) (pos + c.utf8Size) cs

/-- Something is open behind every character of the text. -/
def StaysOpen : Nesting → Nat → List Char → Prop
  | _, _, [] => True
  | n, pos, c :: cs =>
    ¬ (n.step pos c).isClear = true ∧ StaysOpen (n.step pos c) (pos + c.utf8Size) cs

/-- No comma and no closing parenthesis stands where nothing is open. -/
def Passes : Nesting → Nat → List Char → Prop
  | _, _, [] => True
  | n, pos, c :: cs =>
    (n.isClear = true → c ≠ ',' ∧ c ≠ ')') ∧ Passes (n.step pos c) (pos + c.utf8Size) cs

@[simp] theorem after_nil (n : Nesting) (pos : Nat) : n.after pos [] = n := rfl

@[simp] theorem after_cons (n : Nesting) (pos : Nat) (c : Char) (cs : List Char) :
    n.after pos (c :: cs) = (n.step pos c).after (pos + c.utf8Size) cs := rfl

theorem after_append : ∀ (cs ds : List Char) (n : Nesting) (pos : Nat),
    n.after pos (cs ++ ds) = (n.after pos cs).after (pos + width cs) ds
  | [], _, _, _ => by simp
  | c :: cs, ds, n, pos => by
    rw [List.cons_append, after_cons, after_cons, after_append cs ds, width_cons, Nat.add_assoc]

theorem staysOpen_append : ∀ {cs ds : List Char} {n : Nesting} {pos : Nat},
    n.StaysOpen pos (cs ++ ds) ↔
      n.StaysOpen pos cs ∧ (n.after pos cs).StaysOpen (pos + width cs) ds
  | [], ds, n, pos => by simp [StaysOpen]
  | c :: cs, ds, n, pos => by
    rw [List.cons_append, StaysOpen, StaysOpen, staysOpen_append, and_assoc, after_cons,
      width_cons, Nat.add_assoc]

theorem passes_append : ∀ {cs ds : List Char} {n : Nesting} {pos : Nat},
    n.Passes pos (cs ++ ds) ↔ n.Passes pos cs ∧ (n.after pos cs).Passes (pos + width cs) ds
  | [], ds, n, pos => by simp [Passes]
  | c :: cs, ds, n, pos => by
    rw [List.cons_append, Passes, Passes, passes_append, and_assoc, after_cons, width_cons,
      Nat.add_assoc]

/-- Where something is open all along, commas and parentheses do not count. -/
theorem StaysOpen.passes : ∀ {cs : List Char} {n : Nesting} {pos : Nat},
    ¬ n.isClear = true → n.StaysOpen pos cs → n.Passes pos cs
  | [], _, _, _, _ => trivial
  | _ :: _, _, _, hn, h => ⟨fun hc => absurd hc hn, StaysOpen.passes h.1 h.2⟩

/-! ### Steps -/

theorem step_plain {n : Nesting} {c : Char} (hq : n.quote = .outside)
    (hm : Quoted.isMark c = false) (ho : c ≠ '(') (hc : c ≠ ')') (pos : Nat) :
    n.step pos c = n := by
  simp [step, hq, hm, ho, hc]

theorem step_mark {n : Nesting} {c : Char} (hq : n.quote = .outside)
    (hm : Quoted.isMark c = true) (pos : Nat) :
    n.step pos c = { n with quote := .inside c pos } := by
  simp [step, hq, hm]

theorem step_open {n : Nesting} (hq : n.quote = .outside) (pos : Nat) :
    n.step pos '(' =
      { n with depth := n.depth + 1, opened := if n.depth = 0 then pos else n.opened } := by
  simp [step, hq, Quoted.isMark]

theorem step_close {n : Nesting} (hq : n.quote = .outside) (pos : Nat) :
    n.step pos ')' = { n with depth := n.depth - 1 } := by
  simp [step, hq, Quoted.isMark]

theorem not_isClear_of_depth {n : Nesting} (h : n.depth ≠ 0) : ¬ n.isClear = true := by
  simp [isClear, h]

theorem isClear_iff {n : Nesting} : n.isClear = true ↔ n.depth = 0 ∧ n.quote = .outside := by
  simp [isClear]

/-- Between its marks a quoted text is open, and behind them what was open
before it. -/
theorem after_body {mark : Char} {body text : List Char} (hm : Quoted.isMark mark = true)
    (h : Quoted.Body mark body text) : ∀ (n : Nesting) (pos opened : Nat),
    n.quote = .inside mark opened →
      n.after pos body = n ∧ n.StaysOpen pos body := by
  have hs : mark ≠ '\\' := by rintro rfl; simp [Quoted.isMark] at hm
  induction h with
  | nil => exact fun n pos opened _ => ⟨rfl, trivial⟩
  | @plain c cs text hc hb _ ih =>
    intro n pos opened hq
    have hstep : n.step pos c = n := by simp [step, hq, hc, hb]
    obtain ⟨ha, ho⟩ := ih n (pos + c.utf8Size) opened hq
    refine ⟨by rw [after_cons, hstep, ha], ?_, ?_⟩
    · simp [hstep, isClear, hq]
    · rw [hstep]; exact ho
  | @escaped c cs text _ ih =>
    intro n pos opened hq
    have h₁ : n.step pos '\\' = { n with quote := .escaped mark opened } := by
      simp [step, hq, hs.symm]
    have h₂ : ∀ p, ({ n with quote := .escaped mark opened } : Nesting).step p c = n := by
      intro p
      obtain ⟨quote, depth, op⟩ := n
      simp only at hq
      simp [step, hq]
    obtain ⟨ha, ho⟩ := ih n (pos + '\\'.utf8Size + c.utf8Size) opened hq
    refine ⟨by rw [after_cons, after_cons, h₁, h₂, ha], ?_, ?_, ?_⟩
    · simp [h₁, isClear]
    · simp [h₁, h₂, isClear, hq]
    · rw [h₁, h₂]; exact ho

end Nesting

/-- A text in which every parenthesis has its partner. If `commas` is false,
every comma stands in a group or in a quoted text. -/
inductive Balanced : (commas : Bool) → List Char → Prop where
  | nil {b : Bool} : Balanced b []
  | plain {b : Bool} {c : Char} {cs : List Char} :
    Quoted.isMark c = false → c ≠ '(' → c ≠ ')' → (c = ',' → b = true) →
    Balanced b cs → Balanced b (c :: cs)
  | quoted {b : Bool} {mark : Char} {body text cs : List Char} :
    Quoted.isMark mark = true → Quoted.Body mark body text →
    Balanced b cs → Balanced b (mark :: body ++ mark :: cs)
  | group {b : Bool} {inside cs : List Char} :
    Balanced true inside → Balanced b cs → Balanced b ('(' :: inside ++ ')' :: cs)

namespace Balanced

open Nesting

variable {b : Bool} {cs ds : List Char}

theorem append (h : Balanced b cs) (h' : Balanced b ds) : Balanced b (cs ++ ds) := by
  induction h with
  | nil => exact h'
  | plain hm ho hc hb _ ih => exact .plain hm ho hc hb (ih h')
  | quoted hm hbody _ ih =>
    have := Balanced.quoted hm hbody (ih h')
    simpa using this
  | group hi _ _ ih =>
    have := Balanced.group hi (ih h')
    simpa using this

theorem anyCommas (h : Balanced b cs) : Balanced true cs := by
  induction h with
  | nil => exact .nil
  | plain hm ho hc _ _ ih => exact .plain hm ho hc (fun _ => rfl) ih
  | quoted hm hbody _ ih => exact .quoted hm hbody ih
  | group hi _ _ ih => exact .group hi ih

theorem of_plain : ∀ {cs : List Char}, (∀ c ∈ cs, Quoted.isMark c = false ∧ c ≠ '(' ∧ c ≠ ')' ∧
    (c = ',' → b = true)) → Balanced b cs
  | [], _ => .nil
  | c :: cs, h => by
    obtain ⟨hm, ho, hc, hb⟩ := h c List.mem_cons_self
    exact .plain hm ho hc hb (of_plain fun d hd => h d (List.mem_cons_of_mem _ hd))

/-- What is open before a quoted text is open behind it. -/
theorem after_quoted {mark : Char} {body text : List Char} (hm : Quoted.isMark mark = true)
    (hbody : Quoted.Body mark body text) {n : Nesting} (hq : n.quote = .outside) (pos : Nat) :
    n.after pos (mark :: body ++ [mark]) = n ∧
      (n.depth ≠ 0 → n.StaysOpen pos (mark :: body ++ [mark])) ∧
      n.Passes pos (mark :: body ++ [mark]) := by
  obtain ⟨ha, ho⟩ := after_body hm hbody { n with quote := .inside mark pos }
    (pos + mark.utf8Size) pos rfl
  have hlast : ∀ p, ({ n with quote := .inside mark pos } : Nesting).step p mark = n := by
    intro p
    obtain ⟨quote, depth, op⟩ := n
    simp only at hq
    simp [step, hq]
  have hopen : ¬ ({ n with quote := .inside mark pos } : Nesting).isClear = true := by
    simp [isClear]
  have hplain : mark ≠ ',' ∧ mark ≠ ')' := by
    constructor <;> (rintro rfl; simp [Quoted.isMark] at hm)
  refine ⟨?_, fun hd => ?_, ?_⟩
  · rw [List.cons_append, after_cons, step_mark hq hm, after_append, ha, after_cons, hlast,
      after_nil]
  · rw [List.cons_append, StaysOpen, step_mark hq hm, staysOpen_append, ha]
    refine ⟨hopen, ho, ?_, trivial⟩
    rw [hlast]
    exact not_isClear_of_depth hd
  · rw [List.cons_append, Nesting.Passes, step_mark hq hm, passes_append, ha]
    exact ⟨fun _ => hplain, ho.passes hopen, fun hc => absurd hc hopen, trivial⟩

/-- Where a group is open before a balanced text, the same is open behind it,
and something all through it. -/
theorem after_eq (h : Balanced b cs) : ∀ {n : Nesting} (pos : Nat), n.quote = .outside →
    n.depth ≠ 0 → n.after pos cs = n ∧ n.StaysOpen pos cs := by
  induction h with
  | nil => exact fun _ _ _ => ⟨rfl, trivial⟩
  | @plain _ c cs hm ho hc _ _ ih =>
    intro n pos hq hd
    obtain ⟨ha, hopen⟩ := ih (pos + c.utf8Size) hq hd
    rw [after_cons, StaysOpen, step_plain hq hm ho hc]
    exact ⟨ha, not_isClear_of_depth hd, hopen⟩
  | @quoted _ mark body text cs hm hbody _ ih =>
    intro n pos hq hd
    obtain ⟨ha, hopen, -⟩ := after_quoted hm hbody hq pos
    obtain ⟨ha', hopen'⟩ := ih (pos + width (mark :: body ++ [mark])) hq hd
    have heq : mark :: body ++ mark :: cs = (mark :: body ++ [mark]) ++ cs := by simp
    rw [heq, after_append, staysOpen_append, ha]
    exact ⟨ha', hopen hd, hopen'⟩
  | @group _ inside cs _ _ ih ih' =>
    intro n pos hq hd
    have hstep := step_open hq pos
    rw [if_neg hd] at hstep
    obtain ⟨ha, hopen⟩ := ih (n := n.step pos '(') (pos + '('.utf8Size) (by rw [hstep]; exact hq)
      (by rw [hstep]; exact Nat.succ_ne_zero _)
    have hclose : ∀ p, (n.step pos '(').step p ')' = n := by
      intro p
      rw [hstep, step_close (by exact hq)]
      simp
    have hdeep : ¬ (n.step pos '(').isClear = true := by
      rw [hstep]; exact not_isClear_of_depth (Nat.succ_ne_zero _)
    obtain ⟨ha', hopen'⟩ := ih' (pos + '('.utf8Size + width inside + ')'.utf8Size) hq hd
    rw [List.cons_append, after_cons, StaysOpen, after_append, staysOpen_append, ha, after_cons,
      StaysOpen, hclose]
    exact ⟨ha', hdeep, hopen, not_isClear_of_depth hd, hopen'⟩

/-- Where nothing is open before a balanced text without commas of its own,
nothing is behind it, and nothing in it ends a reference. -/
theorem passes (h : Balanced false cs) : ∀ {n : Nesting} (pos : Nat), n.isClear = true →
    (n.after pos cs).isClear = true ∧ n.Passes pos cs := by
  generalize hb : false = b at h
  induction h with
  | nil => exact fun _ hn => ⟨hn, trivial⟩
  | @plain _ c cs hm ho hc hcomma _ ih =>
    subst hb
    intro n pos hn
    obtain ⟨ha, hp⟩ := ih rfl (pos + c.utf8Size) hn
    rw [after_cons, Nesting.Passes, step_plain (isClear_iff.1 hn).2 hm ho hc]
    exact ⟨ha, fun _ => ⟨fun h => Bool.noConfusion (hcomma h), hc⟩, hp⟩
  | @quoted _ mark body text cs hm hbody _ ih =>
    subst hb
    intro n pos hn
    obtain ⟨ha, -, hp⟩ := after_quoted hm hbody (isClear_iff.1 hn).2 pos
    obtain ⟨ha', hp'⟩ := ih rfl (pos + width (mark :: body ++ [mark])) hn
    have heq : mark :: body ++ mark :: cs = (mark :: body ++ [mark]) ++ cs := by simp
    rw [heq, after_append, passes_append, ha]
    exact ⟨ha', hp, hp'⟩
  | @group _ inside cs hi _ _ ih' =>
    subst hb
    intro n pos hn
    obtain ⟨hd, hq⟩ := isClear_iff.1 hn
    have hstep := step_open hq pos
    rw [if_pos hd] at hstep
    have hq' : (n.step pos '(').quote = .outside := by rw [hstep]; exact hq
    have hd' : (n.step pos '(').depth ≠ 0 := by rw [hstep]; exact Nat.succ_ne_zero _
    obtain ⟨ha, hopen⟩ := hi.after_eq (pos + '('.utf8Size) hq' hd'
    have hdeep := not_isClear_of_depth hd'
    have hclose : ∀ p, ((n.step pos '(').step p ')').isClear = true := by
      intro p
      rw [step_close hq', isClear_iff, hstep]
      exact ⟨by simp [hd], hq⟩
    obtain ⟨ha', hp'⟩ := ih' rfl (pos + '('.utf8Size + width inside + ')'.utf8Size) (hclose _)
    rw [List.cons_append, after_cons, Nesting.Passes, after_append, passes_append, ha, after_cons,
      Nesting.Passes]
    exact ⟨ha', fun _ => by decide, hopen.passes hdeep, fun hc => absurd hc hdeep, hp'⟩

end Balanced

namespace Nesting

theorem closeFrom_append : ∀ {cs rest : List Char} {n : Nesting} {pos : Nat},
    n.StaysOpen pos cs → closeFrom n pos (cs ++ rest) =
      (closeFrom (n.after pos cs) (pos + width cs) rest).map (Prod.map (cs ++ ·) id)
  | [], rest, n, pos, _ => by
    simp only [List.nil_append, after_nil, width_nil, Nat.add_zero]
    cases closeFrom n pos rest <;> rfl
  | c :: cs, rest, n, pos, h => by
    rw [List.cons_append, closeFrom, if_neg h.1, closeFrom_append h.2, after_cons, width_cons,
      Nat.add_assoc]
    cases closeFrom ((n.step pos c).after (pos + c.utf8Size) cs)
      (pos + (c.utf8Size + width cs)) rest <;> rfl

/-- **A balanced text between parentheses is a group.** -/
theorem close_of_balanced {b : Bool} {inside : List Char} (h : Balanced b inside) (opened : Nat)
    (rest : List Char) : close opened (inside ++ ')' :: rest) = .ok (inside, rest) := by
  obtain ⟨ha, ho⟩ := h.after_eq (n := { depth := 1, opened }) (opened + 1) rfl (by simp)
  rw [close, closeFrom_append ho, ha, closeFrom]
  simp [step_close, isClear, Except.map]

theorem reachFrom_append : ∀ {cs rest : List Char} {n : Nesting} {pos : Nat},
    n.Passes pos cs → reachFrom n pos (cs ++ rest) =
      (reachFrom (n.after pos cs) (pos + width cs) rest).map (Prod.map (cs ++ ·) id)
  | [], rest, n, pos, _ => by
    simp only [List.nil_append, after_nil, width_nil, Nat.add_zero]
    cases reachFrom n pos rest <;> rfl
  | c :: cs, rest, n, pos, h => by
    have hcomma : ¬ (n.isClear && c = ',') = true := by
      simp only [Bool.and_eq_true, decide_eq_true_eq]
      exact fun hc => (h.1 hc.1).1 hc.2
    have hparen : ¬ (n.isClear && c = ')') = true := by
      simp only [Bool.and_eq_true, decide_eq_true_eq]
      exact fun hc => (h.1 hc.1).2 hc.2
    rw [List.cons_append, reachFrom, if_neg hcomma, if_neg hparen, reachFrom_append h.2,
      after_cons, width_cons, Nat.add_assoc]
    cases reachFrom ((n.step pos c).after (pos + c.utf8Size) cs)
      (pos + (c.utf8Size + width cs)) rest <;> rfl

theorem reachFrom_stop {n : Nesting} {pos : Nat} {rest : List Char} (hn : n.isClear = true)
    (h : ∀ c ∈ rest.head?, c = ',') : reachFrom n pos rest = .ok ([], rest) := by
  cases rest with
  | nil => rw [reachFrom, if_pos hn]
  | cons c rest =>
    have hc : c = ',' := h c rfl
    rw [reachFrom, if_pos (by simp [hn, hc])]

/-- **A reference reaches to the end of a balanced text** without commas of
its own, if a comma follows or nothing. -/
theorem reach_of_balanced {cs rest : List Char} (hb : Balanced false cs) (pos : Nat)
    (h : ∀ c ∈ rest.head?, c = ',') : reach pos (cs ++ rest) = .ok (cs, rest) := by
  obtain ⟨ha, hp⟩ := hb.passes (n := {}) pos rfl
  rw [reach, reachFrom_append hp, reachFrom_stop ha h]
  simp [Except.map]

end Nesting

end TagScope
