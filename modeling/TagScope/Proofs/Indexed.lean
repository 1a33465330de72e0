/-
# A list is the map of its indices

A list as a scope cannot be told from the map that has the decimal texts of its indices for
keys. So every list in the scopes of a stack, at any depth, may be replaced by that map
(`Value.indexed`): each name and each path leads to the same, up to this replacement. In one
scope that is seen from what a name leads to (`Value.found_indexed`). For paths, the lookup
on one stack is mirrored by the lookup on the other: both end with the same error, or with
what corresponds, and both take the same room below the limit (`Lookup.Mirrors`).

This is about scopes without records. A record may be asked for what it has in any way, and
its callables are given the stack.

Key definitions: `Value.indexed`, `Value.Plain`, `Lookup.Mirrors`.
Key theorems: `Value.Keyed.indexed`, `Value.found_indexed`, `Lookup.mirrors_descend`,
`Stack.indexed_lookups`.
-/
import Mathlib.Data.List.Nodup
import TagScope.Proofs.Budget
import TagScope.Proofs.Contents
import TagScope.Proofs.Decimals
import TagScope.Proofs.Equivalence

namespace TagScope

variable {σ α β γ δ : Type}

/-! ### Lists as maps -/

namespace Value

mutual

/-- The value with each list in it, at any depth, as the map of its indices. -/
def indexed : Value → Value
  | .list identity items => .map identity (indexedItems 0 items)
  | .map identity entries => .map identity (indexedEntries entries)
  | .null => .null
  | .bool b => .bool b
  | .int i => .int i
  | .float x => .float x
  | .text s => .text s
  | .record r => .record r
termination_by structural v => v

/-- The values under the decimal texts of the numbers from this one on. -/
def indexedItems : Nat → List Value → List (String × Value)
  | _, [] => []
  | n, v :: vs => (toString n, indexed v) :: indexedItems (n + 1) vs
termination_by structural _ vs => vs

/-- The entries, each under its own key. -/
def indexedEntries : List (String × Value) → List (String × Value)
  | [] => []
  | (key, v) :: rest => (key, indexed v) :: indexedEntries rest
termination_by structural es => es

end

/-- Whether a value is made of scalars, lists and maps. -/
def Plain (v : Value) : Prop := ∀ r, ¬ v.Reaches (.record r)

variable {identity : Identity} {items : List Value} {entries : Entries Value} {id : String}
  {v w scope : Value}

theorem plain_list_iff : (Value.list identity items).Plain ↔ ∀ v ∈ items, v.Plain := by
  constructor
  · exact fun h v hv r hr => h r (.item hv hr)
  · intro h r hr
    rcases reaches_list_iff.1 hr with heq | ⟨v, hv, hr⟩
    · simp at heq
    · exact h v hv r hr

theorem plain_map_iff :
    (Value.map identity entries).Plain ↔ ∀ entry ∈ entries, entry.2.Plain := by
  constructor
  · exact fun h entry hentry r hr => h r (.entry hentry hr)
  · intro h r hr
    rcases reaches_map_iff.1 hr with heq | ⟨key, v, hentry, hr⟩
    · simp at heq
    · exact h _ hentry r hr

theorem Plain.found (h : scope.Plain) (id : String) :
    scope.found id = .nothing ∨ ∃ v, scope.found id = .stored v ∧ v.Plain := by
  cases hfound : scope.found id with
  | nothing => exact Or.inl rfl
  | callable r =>
    obtain ⟨rfl, -⟩ := found_eq_callable_iff.1 hfound
    exact absurd (.refl _) (h r)
  | stored v =>
    refine Or.inr ⟨v, rfl, ?_⟩
    obtain ⟨-, hstored⟩ := found_eq_stored_iff.1 hfound
    cases scope with
    | list identity items =>
      obtain ⟨n, -, hn⟩ := hstored
      exact plain_list_iff.1 h v (List.mem_of_getElem? hn)
    | map identity entries => exact plain_map_iff.1 h _ (Entries.mem_of_lookup hstored)
    | record r => exact absurd (.refl _) (h r)
    | _ => exact hstored.elim

/-! ### Keys and what they stand for -/

theorem lookup_indexedEntries : ∀ entries : Entries Value,
    (indexedEntries entries).lookup id = (entries.lookup id).map indexed
  | [] => rfl
  | (key, v) :: rest => by
    rw [indexedEntries, List.lookup_cons, List.lookup_cons, lookup_indexedEntries rest]
    cases id == key <;> rfl

theorem mem_indexedEntries {key : String} : ∀ {entries : Entries Value},
    (key, w) ∈ indexedEntries entries → ∃ v, (key, v) ∈ entries ∧ v.indexed = w
  | [], h => by simp [indexedEntries] at h
  | (other, v) :: rest, h => by
    rw [indexedEntries] at h
    rcases List.mem_cons.1 h with heq | h
    · obtain ⟨rfl, rfl⟩ := Prod.mk.inj heq
      exact ⟨v, List.mem_cons_self, rfl⟩
    · obtain ⟨v', hv', hw⟩ := mem_indexedEntries h
      exact ⟨v', List.mem_cons_of_mem _ hv', hw⟩

theorem keys_indexedEntries : ∀ entries : Entries Value,
    (indexedEntries entries).map Prod.fst = entries.map Prod.fst
  | [] => rfl
  | (key, v) :: rest => by
    rw [indexedEntries, List.map_cons, List.map_cons, keys_indexedEntries rest]

/-- **The text of an index stands for the item**, and no other key for anything. -/
theorem lookup_indexedItems : ∀ (items : List Value) (n : Nat),
    (indexedItems n items).lookup id = some w ↔
      ∃ k v, id = toString (n + k) ∧ items[k]? = some v ∧ v.indexed = w
  | [], n => by simp [indexedItems]
  | v :: vs, n => by
    rw [indexedItems, List.lookup_cons]
    by_cases hid : id = toString n
    · rw [hid, beq_self_eq_true]
      constructor
      · intro hw
        exact ⟨0, v, rfl, rfl, Option.some.inj hw⟩
      · rintro ⟨k, v', htext, hv', rfl⟩
        have hk : n = n + k := eq_of_toString_eq htext
        obtain rfl : k = 0 := by omega
        exact congrArg (some ∘ indexed) (Option.some.inj hv')
    · rw [beq_false_of_ne hid]
      refine (lookup_indexedItems vs (n + 1)).trans ?_
      constructor
      · rintro ⟨k, v', htext, hv', hw⟩
        refine ⟨k + 1, v', ?_, hv', hw⟩
        rw [htext, Nat.add_right_comm, Nat.add_assoc]
      · rintro ⟨k, v', htext, hv', hw⟩
        cases k with
        | zero => exact absurd htext hid
        | succ k =>
          refine ⟨k, v', ?_, hv', hw⟩
          rw [htext, Nat.add_right_comm, Nat.add_assoc]

theorem mem_indexedItems : ∀ {items : List Value} {n : Nat} {key : String},
    (key, w) ∈ indexedItems n items → ∃ v ∈ items, v.indexed = w
  | [], _, _, h => by simp [indexedItems] at h
  | v :: vs, n, key, h => by
    rw [indexedItems] at h
    rcases List.mem_cons.1 h with heq | h
    · obtain ⟨-, rfl⟩ := Prod.mk.inj heq
      exact ⟨v, List.mem_cons_self, rfl⟩
    · obtain ⟨v', hv', hw⟩ := mem_indexedItems h
      exact ⟨v', List.mem_cons_of_mem _ hv', hw⟩

theorem keys_indexedItems : ∀ (items : List Value) (n : Nat),
    (indexedItems n items).map Prod.fst = (List.range' n items.length).map toString
  | [], _ => rfl
  | v :: vs, n => by
    rw [indexedItems, List.map_cons, keys_indexedItems vs (n + 1), List.length_cons,
      List.range'_succ, List.map_cons]

theorem reaches_of_reaches_indexed {v : Value} :
    v.indexed.Reaches w → ∃ u, v.Reaches u ∧ u.indexed = w := by
  induction v using inductionOnParts with
  | leaf v hleaf =>
    have hsame : v.indexed = v := by
      cases v with
      | list | map => exact hleaf.elim
      | _ => rfl
    rw [hsame, hleaf.reaches_iff]
    rintro rfl
    exact ⟨w, .refl w, hsame⟩
  | list identity items ih =>
    rw [indexed, reaches_map_iff]
    rintro (rfl | ⟨key, v', hentry, hr⟩)
    · exact ⟨_, .refl _, by rw [indexed]⟩
    · obtain ⟨v, hv, rfl⟩ := mem_indexedItems hentry
      obtain ⟨u, hu, hw⟩ := ih v hv hr
      exact ⟨u, .item hv hu, hw⟩
  | map identity entries ih =>
    rw [indexed, reaches_map_iff]
    rintro (rfl | ⟨key, v', hentry, hr⟩)
    · exact ⟨_, .refl _, by rw [indexed]⟩
    · obtain ⟨v, hv, rfl⟩ := mem_indexedEntries hentry
      obtain ⟨u, hu, hw⟩ := ih key v hv hr
      exact ⟨u, .entry hv hu, hw⟩

/-- **Each index is a key once**, so maps keep one entry for each key. -/
theorem Keyed.indexed (h : v.Keyed) : v.indexed.Keyed := by
  intro identity entries hr
  obtain ⟨u, hvu, hu⟩ := reaches_of_reaches_indexed hr
  cases u with
  | list other items =>
    rw [Value.indexed] at hu
    rw [← (Value.map.inj hu).2, keys_indexedItems]
    exact (List.nodup_range' ..).map fun _ _ h => eq_of_toString_eq h
  | map other entries' =>
    rw [Value.indexed] at hu
    rw [← (Value.map.inj hu).2, keys_indexedEntries]
    exact h _ _ hvu
  | _ => simp [Value.indexed] at hu

end Value

/-! ### What a name leads to -/

/-- What is found, with what is stored turned into something else. -/
def Found.map (f : Value → Value) : Found → Found
  | .nothing => .nothing
  | .stored v => .stored (f v)
  | .callable r => .callable r

theorem Found.map_ofOption (f : Value → Value) (found : Option Value) :
    (Found.ofOption found).map f = .ofOption (found.map f) := by
  cases found <;> rfl

namespace Value

variable {identity : Identity} {items : List Value} {id : String} {scope : Value}

/-- **A name leads to the same** in the scope and in the map. -/
theorem found_indexed (h : scope.Plain) (id : String) :
    scope.indexed.found id = (scope.found id).map indexed := by
  cases scope with
  | record r => exact absurd (.refl _) (h r)
  | map identity entries =>
    simp only [indexed, found, frame?, Found.map_ofOption, lookup_indexedEntries]
  | list identity items =>
    simp only [indexed, found, frame?, Found.map_ofOption]
    refine congrArg Found.ofOption (Option.ext fun w => ?_)
    rw [lookup_indexedItems]
    simp only [Option.map_eq_some_iff, Option.bind_eq_some_iff, index?_eq_some_iff, Nat.zero_add]
    constructor
    · rintro ⟨k, v, htext, hv, hw⟩
      exact ⟨v, ⟨k, htext, hv⟩, hw⟩
    · rintro ⟨v, ⟨k, htext, hv⟩, hw⟩
      exact ⟨k, v, htext, hv, hw⟩
  | _ => rfl

theorem first_indexed : ∀ {scopes : List Value}, (∀ scope ∈ scopes, scope.Plain) →
    Found.first id (scopes.map indexed) = (Found.first id scopes).map indexed ∧
      (Found.first id scopes = .nothing ∨ ∃ v, Found.first id scopes = .stored v ∧ v.Plain)
  | [], _ => ⟨rfl, Or.inl rfl⟩
  | scope :: outer, h => by
    obtain ⟨hscope, houter⟩ := List.forall_mem_cons.1 h
    rw [List.map_cons, Found.first, Found.first, found_indexed hscope]
    rcases hscope.found id with hnothing | ⟨v, hv, hplain⟩
    · rw [hnothing]
      exact first_indexed houter
    · rw [hv]
      exact ⟨rfl, Or.inr ⟨v, rfl, hplain⟩⟩

end Value

/-! ### Lookups that mirror each other -/

/-- Two results that are the same error, or correspond. -/
inductive Mirrored (rel : α → β → Prop) : Except LookupError α → Except LookupError β → Prop
  | ok {a : α} {b : β} : rel a b → Mirrored rel (.ok a) (.ok b)
  | error (e : LookupError) : Mirrored rel (.error e) (.error e)

namespace Lookup

/-- Where as many activities are in progress, both lookups end, with as many in progress and
results that mirror each other. Where `room` more may be in progress below the limit, that is
no error. -/
def Mirrors (limit room : Nat) (rel : α → β → Prop) (m : Lookup σ α) (m' : Lookup σ β) : Prop :=
  ∀ s s' : Session σ, s.depth = s'.depth → ∃ r t r' t',
    m.run s = some (r, t) ∧ m'.run s' = some (r', t') ∧ t.depth = s.depth ∧ t'.depth = s.depth ∧
      Mirrored rel r r' ∧ (s.depth + room ≤ limit → ∃ a, r = .ok a)

namespace Mirrors

variable {limit room : Nat} {rel : α → β → Prop} {rel' : γ → δ → Prop} {m : Lookup σ α}
  {m' : Lookup σ β}

theorem pure {a : α} {b : β} (h : rel a b) :
    Mirrors limit room rel (Pure.pure a : Lookup σ α) (Pure.pure b) :=
  fun s s' hs => ⟨.ok a, s, .ok b, s', rfl, rfl, rfl, hs.symm, .ok h, fun _ => ⟨a, rfl⟩⟩

theorem bind {f : α → Lookup σ γ} {f' : β → Lookup σ δ} (hm : Mirrors limit room rel m m')
    (hf : ∀ a b, rel a b → Mirrors limit room rel' (f a) (f' b)) :
    Mirrors limit room rel' (m >>= f) (m' >>= f') := by
  intro s s' hs
  obtain ⟨r, t, r', t', hrun, hrun', hdepth, hdepth', hr, hok⟩ := hm s s' hs
  cases hr with
  | error e =>
    refine ⟨_, t, _, t', run_bind_of_error hrun f, run_bind_of_error hrun' f', hdepth, hdepth',
      .error e, fun hroom => ?_⟩
    obtain ⟨a, ha⟩ := hok hroom
    simp at ha
  | @ok a b hab =>
    obtain ⟨q, u, q', u', hrest, hrest', hend, hend', hq, hok'⟩ :=
      hf a b hab t t' (hdepth.trans hdepth'.symm)
    rw [hdepth] at hend hend' hok'
    refine ⟨q, u, q', u', ?_, ?_, hend, hend', hq, hok'⟩
    · rw [run_bind_of_ok hrun, hrest]
    · rw [run_bind_of_ok hrun', hrest']

theorem mono {room' : Nat} (h : Mirrors limit room rel m m') (hroom : room ≤ room') :
    Mirrors limit room' rel m m' := by
  intro s s' hs
  obtain ⟨r, t, r', t', hrun, hrun', hdepth, hdepth', hr, hok⟩ := h s s' hs
  exact ⟨r, t, r', t', hrun, hrun', hdepth, hdepth', hr, fun hle => hok (by omega)⟩

theorem guarded {limit : UInt64} (h : Mirrors limit.toNat room rel m m') :
    Mirrors limit.toNat (room + 1) rel (Lookup.guarded limit m) (Lookup.guarded limit m') := by
  intro s s' hs
  by_cases hl : s.depth < limit.toNat
  · have hl' : s'.depth < limit.toNat := hs ▸ hl
    obtain ⟨r, t, r', t', hrun, hrun', hdepth, hdepth', hr, hok⟩ :=
      h s.enter s'.enter (congrArg (· + 1) hs)
    refine ⟨r, t.leave, r', t'.leave, run_guarded_eq_some.2 (Or.inl ⟨hl, r, t, hrun, rfl⟩),
      run_guarded_eq_some.2 (Or.inl ⟨hl', r', t', hrun', rfl⟩), ?_, ?_, hr, fun hroom => hok ?_⟩
    · exact congrArg (· - 1) hdepth
    · exact congrArg (· - 1) hdepth'
    · show s.depth + 1 + room ≤ limit.toNat
      omega
  · have hl' : ¬ s'.depth < limit.toNat := hs ▸ hl
    refine ⟨_, _, _, _, run_guarded_eq_some.2 (Or.inr ⟨hl, rfl⟩),
      run_guarded_eq_some.2 (Or.inr ⟨hl', rfl⟩), rfl, hs.symm, .error _, fun hroom => ?_⟩
    omega

theorem tracked (h : Mirrors limit room rel m m') (activity activity' : Activity) :
    Mirrors limit room rel (Lookup.tracked activity m) (Lookup.tracked activity' m') := by
  intro s s' hs
  obtain ⟨r, t, r', t', hrun, hrun', hdepth, hdepth', hr, hok⟩ :=
    h (s.began activity) (s'.began activity') hs
  exact ⟨r, _, r', _, run_tracked_eq_some.2 ⟨r, t, hrun, rfl⟩,
    run_tracked_eq_some.2 ⟨r', t', hrun', rfl⟩, hdepth, hdepth', hr, hok⟩

end Mirrors

section

variable {limit room : Nat} {rel : Option Value → Option Value → Prop}
  {resolve resolve' : Path → Lookup σ (Option Value)}

mutual

theorem mirrors_evaluate : ∀ a : Arg,
    (∀ p ∈ a.paths, Mirrors limit room rel (resolve p) (resolve' p)) →
    Mirrors limit room (fun _ _ => True) (evaluate resolve a) (evaluate resolve' a)
  | .literal v, _ => .pure trivial
  | .path p, h => (h p (by simp [Arg.paths])).bind fun _ _ _ => .pure trivial
  | .list items, h => (mirrors_evaluateAll items h).bind fun _ _ _ => .pure trivial

/-- Arguments are evaluated in mirrored ways if the paths among them are resolved so. What
they come to does not count where nothing is called. -/
theorem mirrors_evaluateAll : ∀ as : List Arg,
    (∀ p ∈ Arg.pathsAll as, Mirrors limit room rel (resolve p) (resolve' p)) →
    Mirrors limit room (fun _ _ => True) (evaluateAll resolve as) (evaluateAll resolve' as)
  | [], _ => .pure trivial
  | a :: as, h => by
    rw [Arg.pathsAll, List.forall_mem_append] at h
    rw [evaluateAll, evaluateAll]
    refine (mirrors_evaluate a h.1).bind fun _ _ _ => ?_
    exact (mirrors_evaluateAll as h.2).bind fun _ _ _ => .pure trivial

end

end

end Lookup

/-! ### Lookups with lists and with maps -/

/-- What is found on one stack, and what on the other. -/
def Value.Corresponding (found found' : Option Value) : Prop :=
  found' = found.map Value.indexed ∧ ∀ v ∈ found, v.Plain

/-- The stack with the lists in its scopes as maps. -/
def Stack.indexed (stack : Stack) : Stack :=
  { stack with frames := stack.frames.map Value.indexed }

namespace Lookup

open Value

section

variable {host : Host σ} {answer answer' : Stack → Query → Lookup σ (Option Value)}
  {stack stack' : Stack} {limit room : Nat}

/-- **Segments lead to what corresponds**, from scopes that do. -/
theorem mirrors_descend : ∀ (segments : List Segment) {scopes : List Value},
    (∀ segment ∈ segments, Mirrors limit room (fun _ _ => True) (arguments answer stack segment)
      (arguments answer' stack' segment)) →
    (∀ scope ∈ scopes, scope.Plain) →
    Mirrors limit room Corresponding (descend host answer stack segments scopes)
      (descend host answer' stack' segments (scopes.map indexed))
  | [], scopes, _, hscopes => .pure ⟨List.head?_map, fun v hv => hscopes v (List.mem_of_head? hv)⟩
  | segment :: rest, scopes, hargs, hscopes => by
    obtain ⟨hfirst, hrest⟩ := List.forall_mem_cons.1 hargs
    rw [descend, descend]
    refine hfirst.bind fun args args' _ => ?_
    obtain ⟨hfound, hnothing | ⟨v, hv, hplain⟩⟩ := @first_indexed segment.name scopes hscopes
    · rw [hfound, hnothing]
      exact .pure ⟨rfl, by simp⟩
    · rw [hfound, hv]
      have hscope : ∀ scope ∈ [v], scope.Plain := List.forall_mem_singleton.2 hplain
      exact mirrors_descend rest hrest hscope

end

variable {host : Host σ} {stack : Stack}

theorem mirrors_resolve_of_follow {room : Nat} {p : Path}
    (h : Mirrors stack.maxDepth.toNat room Corresponding (follow host (whole host) stack p)
      (follow host (whole host) stack.indexed p)) :
    Mirrors stack.maxDepth.toNat (room + 1) Corresponding (whole host stack (.resolve p))
      (whole host stack.indexed (.resolve p)) := by
  rw [whole_eq, whole_eq]
  exact (h.tracked _ _).guarded.tracked _ _

/-- **Every path leads to what corresponds**, and takes as much room as it nests and one
more. -/
theorem mirrors_resolve (hplain : ∀ scope ∈ stack.frames, scope.Plain) : ∀ p : Path,
    Mirrors stack.maxDepth.toNat (p.nesting + 1) Corresponding (whole host stack (.resolve p))
      (whole host stack.indexed (.resolve p))
  | .current =>
    mirrors_resolve_of_follow
      (.pure ⟨List.head?_map, fun v hv => hplain v (List.mem_of_head? hv)⟩)
  | .segments [] => mirrors_resolve_of_follow (.pure ⟨rfl, by simp⟩)
  | .segments (first :: rest) => by
    have hne := List.cons_ne_nil first rest
    refine mirrors_resolve_of_follow ?_
    rw [follow_eq_descend host (whole host) stack hne,
      follow_eq_descend host (whole host) stack.indexed hne]
    refine mirrors_descend _ (fun segment hsegment => ?_) hplain
    refine @mirrors_evaluateAll σ _ _ Corresponding _ _ segment.args fun p hp => ?_
    -- the arguments of the segment are one level further down
    have hlt := Segment.nesting_lt_of_mem_pathsAll hsegment hp
    exact (mirrors_resolve hplain p).mono (by omega)
termination_by p => p.nesting

end Lookup

namespace Stack

theorem tryFind_eq_some_iff {host : Host σ} {stack : Stack} {id : String} {args : List Value}
    {s : Session σ} {v : Value} (h : ∀ r, Found.first id stack.frames ≠ .callable r) :
    (stack.tryFind host id args s).1 = .ok (some v) ↔ Found.first id stack.frames = .stored v := by
  cases hfirst : Found.first id stack.frames with
  | nothing => simp [tryFind_of_nothing hfirst]
  | stored w => simp [tryFind_of_stored hfirst]
  | callable r => exact absurd hfirst (h r)

variable (host : Host σ)

/-- **A list is the map of its indices.** On a stack without records, and on that stack with
the lists in it as maps, every name leads to the same, up to lists as maps, and so does every
path, which fails on the one as on the other, and not at all where the limit leaves room for
it. The name that leads to an item of a list is the text of its index, written in digits
without a zero in front; whether this is read as a machine word makes no difference. -/
theorem indexed_lookups :
    (∀ stack : Stack, (∀ scope ∈ stack.frames, scope.Plain) →
      (∀ id args s, ∃ found, (stack.tryFind host id args s).1 = .ok found ∧
        (stack.indexed.tryFind host id args s).1 = .ok (found.map Value.indexed)) ∧
      ∀ p s, (stack.indexed.tryResolve host p s).1 =
          (stack.tryResolve host p s).1.map (·.map Value.indexed) ∧
        (s.depth + (p.nesting + 1) ≤ stack.maxDepth.toNat →
          ∃ found, (stack.tryResolve host p s).1 = .ok found)) ∧
    (∀ identity items limit id args s v,
      (tryFind host ⟨[.list identity items], limit⟩ id args s).1 = .ok (some v) ↔
        ∃ n : Nat, id = toString n ∧ items[n]? = some v) ∧
    (∀ id, (∃ n : Nat, id = toString n) ↔ isDecimal id = true) ∧
    (∀ id w, indexWord? id = some w ↔ id = toString w.toNat) ∧
    ∀ (items : List Value) id, items.length ≤ 2 ^ 64 →
      ((indexWord? id).bind fun w => items[w.toNat]?) = (index? id).bind fun n => items[n]? := by
  refine ⟨fun stack hplain => ⟨fun id args s => ?_, fun p s => ?_⟩, ?_, fun id => isDecimal_iff.symm,
    fun id w => indexWord?_eq_some_iff, fun items id h => items_of_indexWord? h id⟩
  · obtain ⟨hfound, hnothing | ⟨v, hv, -⟩⟩ := @Value.first_indexed id stack.frames hplain
    · rw [hnothing] at hfound
      exact ⟨none, (tryFind_of_nothing hnothing).1, (tryFind_of_nothing hfound).1⟩
    · rw [hv] at hfound
      exact ⟨some v, (tryFind_of_stored hv).1, (tryFind_of_stored hfound).1⟩
  · obtain ⟨r, t, r', t', hrun, hrun', -, -, hr, hok⟩ :=
      @Lookup.mirrors_resolve σ host stack hplain p s s rfl
    have hquery : stack.tryResolve host p s = (r, t) := Option.some.inj hrun
    have hquery' : stack.indexed.tryResolve host p s = (r', t') := Option.some.inj hrun'
    rw [hquery, hquery']
    refine ⟨?_, hok⟩
    cases hr with
    | ok h => exact congrArg Except.ok h.1
    | error e => rfl
  · intro identity items limit id args s v
    have hfirst : Found.first id [.list identity items] = (Value.list identity items).found id :=
      Lookup.Found.first_singleton id _
    have hcallable : ∀ r, Found.first id [.list identity items] ≠ .callable r := by
      intro r hr
      rw [hfirst, Value.found_eq_callable_iff] at hr
      exact hr.2
    rw [tryFind_eq_some_iff hcallable, hfirst, Value.found_eq_stored_iff]
    exact and_iff_right not_false

/-- A list in a map, with a map in it that has a list. -/
def listing : Stack where
  frames := [.map 0 [("xs", .list 1 [.text "a", .map 2 [("k", .list 3 [.int 7])]])]]

/-- The second of `xs` is the same with its list as a map, and so is what that list has; there
is no third, and `01` is no index. -/
theorem indexed_lookups_listing :
    (listing.indexed.tryResolve Host.silent (.segments [.bare "xs", .bare "1"])
      { state := () }).1 = .ok (some (.map 2 [("k", .map 3 [("0", .int 7)])])) ∧
    (listing.indexed.tryResolve Host.silent
      (.segments [.bare "xs", .bare "1", .bare "k", .call "0" [.path (.ofName "xs")]])
        { state := () }).1 = .ok (some (.int 7)) ∧
    (listing.indexed.tryResolve Host.silent (.segments [.bare "xs", .bare "2"])
      { state := () }).1 = .ok none ∧
    ¬ ∃ n : Nat, "01" = toString n := by
  have hleaf : (Value.text "a").Plain ∧ (Value.int 7).Plain := by
    constructor <;> exact fun r hr => by cases hr
  have hplain : ∀ scope ∈ listing.frames, scope.Plain := by
    simpa [listing, Value.plain_map_iff, Value.plain_list_iff] using hleaf
  obtain ⟨hstacks, -, hdecimal, -⟩ := indexed_lookups Host.silent
  obtain ⟨-, hpaths⟩ := hstacks listing hplain
  refine ⟨?_, ?_, ?_, ?_⟩
  · rw [(hpaths _ _).1]
    rfl
  · rw [(hpaths _ _).1]
    rfl
  · rw [(hpaths _ _).1]
    rfl
  · intro h
    have h01 := (hdecimal "01").1 h
    simp [show isDecimal "01" = false from rfl] at h01

end Stack

end TagScope
