/-
# Equality is an equivalence up to what is no number

Maps are compared from one side: they have as many entries, and each entry of the first
has its equal in the second. As no map has a key twice, that is the same as to compare them
key by key (`Value.eqv_map_iff`), and so it does not matter from which side they are looked
at, nor in which order their entries stand. From there equality is symmetric and transitive
by induction on what the values hold. It is no equivalence: a value that reaches a `nan` is
not equal to itself, though it is the same as itself (`Value.eqv_self_iff`).

Values that are the same are equal as far as they are equal to themselves, as long as what
has one identity has one content (`Value.Agrees`).

Key definitions: `Value.Keyed`, `Value.Agrees`.
Key theorems: `Value.eqv_map_iff`, `Value.eqv_symm`, `Value.eqv_trans`, `Value.eqv_self_iff`,
`Value.eqv_isPartialEquivalence`.
-/
import Mathlib.Data.List.Perm.Subperm
import TagScope.Proofs.Contents
import TagScope.Value.Equality

namespace TagScope

/-! ### Entries with one key each -/

namespace Entries

variable {α : Type} {es : Entries α} {key : String} {a : α}

theorem mem_of_lookup (h : es.lookup key = some a) : (key, a) ∈ es := by
  obtain ⟨before, after, rfl, -⟩ := List.lookup_eq_some_iff.1 h
  exact List.mem_append_right _ List.mem_cons_self

theorem mem_keys_iff : key ∈ es.map Prod.fst ↔ ∃ a, es.lookup key = some a := by
  rw [← Option.isSome_iff_exists, List.lookup_isSome_iff, List.mem_map]
  refine exists_congr fun entry => and_congr_right fun _ => ?_
  rw [beq_iff_eq]
  exact eq_comm

theorem lookup_eq_none_iff : es.lookup key = none ↔ key ∉ es.map Prod.fst := by
  rw [mem_keys_iff, ← Option.isSome_iff_exists, Option.not_isSome_iff_eq_none]

theorem lookup_of_mem : ∀ {es : Entries α}, (es.map Prod.fst).Nodup → (key, a) ∈ es →
    es.lookup key = some a
  | (other, b) :: rest, hn, hmem => by
    rw [List.map_cons, List.nodup_cons] at hn
    rcases List.mem_cons.1 hmem with heq | hrest
    · obtain ⟨rfl, rfl⟩ := Prod.mk.inj heq
      exact List.lookup_cons_self
    · have hkey : key ∈ rest.map Prod.fst := List.mem_map.2 ⟨_, hrest, rfl⟩
      have hne : key ≠ other := fun heq => hn.1 (heq ▸ hkey)
      rw [List.lookup_cons, beq_false_of_ne hne]
      exact lookup_of_mem hn.2 hrest

end Entries

namespace Value

/-! ### Lists item by item -/

theorem eqvItems_self_iff : ∀ {as : List Value},
    eqvItems as as = true ↔ ∀ a ∈ as, a.eqv a = true
  | [] => by simp [eqvItems]
  | a :: as => by rw [eqvItems, Bool.and_eq_true, eqvItems_self_iff, List.forall_mem_cons]

theorem eqvItems_symm : ∀ {as bs : List Value},
    (∀ a ∈ as, ∀ b ∈ bs, a.eqv b = true → b.eqv a = true) →
    eqvItems as bs = true → eqvItems bs as = true
  | [], [], _, h => h
  | [], _ :: _, _, h => by simp [eqvItems] at h
  | _ :: _, [], _, h => by simp [eqvItems] at h
  | a :: as, b :: bs, hsymm, h => by
    rw [eqvItems, Bool.and_eq_true] at h ⊢
    refine ⟨hsymm a List.mem_cons_self b List.mem_cons_self h.1, eqvItems_symm ?_ h.2⟩
    intro x hx y hy
    exact hsymm x (List.mem_cons_of_mem _ hx) y (List.mem_cons_of_mem _ hy)

theorem eqvItems_trans : ∀ {as bs cs : List Value},
    (∀ a ∈ as, ∀ b ∈ bs, ∀ c ∈ cs, a.eqv b = true → b.eqv c = true → a.eqv c = true) →
    eqvItems as bs = true → eqvItems bs cs = true → eqvItems as cs = true
  | [], [], _, _, _, h => h
  | [], _ :: _, _, _, h, _ => by simp [eqvItems] at h
  | _ :: _, [], _, _, h, _ => by simp [eqvItems] at h
  | _ :: _, _ :: _, [], _, _, h => by simp [eqvItems] at h
  | a :: as, b :: bs, c :: cs, htrans, hab, hbc => by
    rw [eqvItems, Bool.and_eq_true] at hab hbc ⊢
    have hfirst := htrans a List.mem_cons_self b List.mem_cons_self c List.mem_cons_self
    refine ⟨hfirst hab.1 hbc.1, eqvItems_trans ?_ hab.2 hbc.2⟩
    intro x hx y hy z hz
    exact htrans x (List.mem_cons_of_mem _ hx) y (List.mem_cons_of_mem _ hy) z
      (List.mem_cons_of_mem _ hz)

/-! ### Maps key by key -/

/-- What a key stands for in two maps is equal, or it stands for nothing in both. -/
abbrev EqvAt (as bs : Entries Value) (key : String) : Prop :=
  Option.Rel (fun a b => a.eqv b = true) (as.lookup key) (bs.lookup key)

section

variable {as bs : Entries Value} {key : String}

theorem EqvAt.mem_keys_iff (h : EqvAt as bs key) :
    key ∈ as.map Prod.fst ↔ key ∈ bs.map Prod.fst := by
  rw [Entries.mem_keys_iff, Entries.mem_keys_iff]
  unfold EqvAt at h
  generalize as.lookup key = x at h
  generalize bs.lookup key = y at h
  cases h <;> simp

theorem eqvAt_of_eq_some {a : Value} (ha : as.lookup key = some a) :
    EqvAt as bs key ↔ ∃ b, bs.lookup key = some b ∧ a.eqv b = true := by
  unfold EqvAt
  rw [ha]
  constructor
  · intro h
    generalize bs.lookup key = y at h
    cases h with
    | some hab => exact ⟨_, rfl, hab⟩
  · rintro ⟨b, hb, hab⟩
    rw [hb]
    exact .some hab

theorem eqvAt_of_eq_none (ha : as.lookup key = none) :
    EqvAt as bs key ↔ bs.lookup key = none := by
  unfold EqvAt
  rw [ha]
  constructor
  · intro h
    generalize bs.lookup key = y at h
    cases h
    rfl
  · intro hb
    rw [hb]
    exact .none

end

theorem eqvWithin_iff {bs : Entries Value} : ∀ {as : Entries Value},
    eqvWithin as bs = true ↔
      ∀ entry ∈ as, ∃ b, bs.lookup entry.1 = some b ∧ entry.2.eqv b = true
  | [] => by simp [eqvWithin]
  | (key, a) :: rest => by
    rw [eqvWithin, Bool.and_eq_true, eqvWithin_iff, List.forall_mem_cons]
    refine and_congr_left fun _ => ?_
    cases bs.lookup key <;> simp

/-- **Maps are equal key by key.** -/
theorem eqv_map_iff {i j : Identity} {as bs : Entries Value} (ha : (as.map Prod.fst).Nodup)
    (hb : (bs.map Prod.fst).Nodup) :
    (Value.map i as).eqv (.map j bs) = true ↔ ∀ key, EqvAt as bs key := by
  rw [eqv_map, Bool.and_eq_true, beq_iff_eq, eqvWithin_iff]
  constructor
  · rintro ⟨hlength, hwithin⟩ key
    cases hkey : as.lookup key with
    | some a => exact (eqvAt_of_eq_some hkey).2 (hwithin _ (Entries.mem_of_lookup hkey))
    | none =>
      -- the keys of the first are keys of the second, which has as many, hence no others
      have hsub : as.map Prod.fst ⊆ bs.map Prod.fst := by
        intro other hother
        obtain ⟨a, hlookup⟩ := Entries.mem_keys_iff.1 hother
        obtain ⟨b, hb, -⟩ := hwithin _ (Entries.mem_of_lookup hlookup)
        exact Entries.mem_keys_iff.2 ⟨b, hb⟩
      have hle : (bs.map Prod.fst).length ≤ (as.map Prod.fst).length := by
        rw [List.length_map, List.length_map]
        exact Nat.le_of_eq hlength.symm
      have hperm := (List.subperm_of_subset ha hsub).perm_of_length_le hle
      have hnone := Entries.lookup_eq_none_iff.1 hkey
      rw [hperm.mem_iff, ← Entries.lookup_eq_none_iff] at hnone
      exact (eqvAt_of_eq_none hkey).2 hnone
  · intro h
    refine ⟨?_, fun ⟨key, a⟩ hmem => ?_⟩
    · have hperm := (List.perm_ext_iff_of_nodup ha hb).2 fun key => (h key).mem_keys_iff
      have hlength := hperm.length_eq
      rwa [List.length_map, List.length_map] at hlength
    · exact (eqvAt_of_eq_some (Entries.lookup_of_mem ha hmem)).1 (h key)

theorem forall_eqvAt_iff {as bs : Entries Value} : (∀ key, EqvAt as bs key) ↔
    (∀ key, key ∈ as.map Prod.fst ↔ key ∈ bs.map Prod.fst) ∧
      ∀ key a b, as.lookup key = some a → bs.lookup key = some b → a.eqv b = true := by
  constructor
  · intro h
    refine ⟨fun key => (h key).mem_keys_iff, fun key a b ha hb => ?_⟩
    obtain ⟨b', hb', hab⟩ := (eqvAt_of_eq_some ha).1 (h key)
    obtain rfl : b' = b := Option.some.inj (hb'.symm.trans hb)
    exact hab
  · rintro ⟨hkeys, hvalues⟩ key
    cases hkey : as.lookup key with
    | some a =>
      obtain ⟨b, hb⟩ := Entries.mem_keys_iff.1 ((hkeys key).1 (Entries.mem_keys_iff.2 ⟨a, hkey⟩))
      exact (eqvAt_of_eq_some hkey).2 ⟨b, hb, hvalues key a b hkey hb⟩
    | none =>
      have hnone := Entries.lookup_eq_none_iff.1 hkey
      rw [hkeys key, ← Entries.lookup_eq_none_iff] at hnone
      exact (eqvAt_of_eq_none hkey).2 hnone

/-! ### Values whose maps have one entry for each key -/

/-- Whether no map that a value reaches has a key twice, as `Entries.nodup_ofList` has it of
new maps. -/
def Keyed (v : Value) : Prop :=
  ∀ identity entries, v.Reaches (.map identity entries) → (entries.map Prod.fst).Nodup

section

variable {identity : Identity} {items : List Value} {entries : Entries Value} {key : String}
  {v : Value}

theorem IsLeaf.keyed (h : v.IsLeaf) : v.Keyed := by
  intro identity entries hr
  rw [← h.reaches_iff.1 hr] at h
  exact h.elim

theorem keyed_list_iff : (Value.list identity items).Keyed ↔ ∀ v ∈ items, v.Keyed := by
  constructor
  · exact fun h v hv other es hr => h other es (.item hv hr)
  · intro h other es hr
    rcases reaches_list_iff.1 hr with heq | ⟨v, hv, hr⟩
    · simp at heq
    · exact h v hv other es hr

theorem keyed_map_iff : (Value.map identity entries).Keyed ↔
    (entries.map Prod.fst).Nodup ∧ ∀ entry ∈ entries, entry.2.Keyed := by
  constructor
  · intro h
    exact ⟨h _ _ (.refl _), fun _ hv other es hr => h other es (.entry hv hr)⟩
  · rintro ⟨hn, h⟩ other es hr
    rcases reaches_map_iff.1 hr with heq | ⟨key, v, hv, hr⟩
    · obtain ⟨-, rfl⟩ := Value.map.inj heq
      exact hn
    · exact h _ hv other es hr

theorem Keyed.of_lookup (h : (Value.map identity entries).Keyed)
    (hv : entries.lookup key = some v) : v.Keyed :=
  (keyed_map_iff.1 h).2 _ (Entries.mem_of_lookup hv)

end

/-! ### Equality -/

/-- **Equality does not depend on the side** from which it is looked at. -/
theorem eqv_symm {a b : Value} (ha : a.Keyed) (hb : b.Keyed) (h : a.eqv b = true) :
    b.eqv a = true := by
  induction a using inductionOnParts generalizing b with
  | leaf a hleaf =>
    cases a with
    | list | map => exact hleaf.elim
    | _ => cases b <;> simp_all [eqv, Binary64.eqv_comm]
  | list i as ih =>
    cases b with
    | list j bs =>
      rw [eqv_list] at h ⊢
      refine eqvItems_symm (fun x hx y hy => ?_) h
      exact ih x hx (keyed_list_iff.1 ha x hx) (keyed_list_iff.1 hb y hy)
    | _ => simp [eqv] at h
  | map i as ih =>
    cases b with
    | map j bs =>
      have hna := (keyed_map_iff.1 ha).1
      have hnb := (keyed_map_iff.1 hb).1
      rw [eqv_map_iff hna hnb] at h
      rw [eqv_map_iff hnb hna]
      intro key
      cases hkey : as.lookup key with
      | some x =>
        obtain ⟨y, hy, hxy⟩ := (eqvAt_of_eq_some hkey).1 (h key)
        have hyx := ih key x (Entries.mem_of_lookup hkey) (ha.of_lookup hkey) (hb.of_lookup hy) hxy
        exact (eqvAt_of_eq_some hy).2 ⟨x, hkey, hyx⟩
      | none => exact (eqvAt_of_eq_none ((eqvAt_of_eq_none hkey).1 (h key))).2 hkey
    | _ => simp [eqv] at h

theorem eqv_trans {a b c : Value} (ha : a.Keyed) (hb : b.Keyed) (hc : c.Keyed)
    (hab : a.eqv b = true) (hbc : b.eqv c = true) : a.eqv c = true := by
  induction a using inductionOnParts generalizing b c with
  | leaf a hleaf =>
    cases a with
    | list | map => exact hleaf.elim
    | float x =>
      cases b with
      | float y =>
        cases c with
        | float z =>
          rw [eqv] at hab hbc ⊢
          exact Binary64.eqv_trans hab hbc
        | _ => simp [eqv] at hbc
      | _ => simp [eqv] at hab
    | _ => cases b <;> cases c <;> simp_all [eqv]
  | list i as ih =>
    cases b with
    | list j bs =>
      cases c with
      | list k cs =>
        rw [eqv_list] at hab hbc ⊢
        refine eqvItems_trans (fun x hx y hy z hz => ?_) hab hbc
        exact ih x hx (keyed_list_iff.1 ha x hx) (keyed_list_iff.1 hb y hy)
          (keyed_list_iff.1 hc z hz)
      | _ => simp [eqv] at hbc
    | _ => simp [eqv] at hab
  | map i as ih =>
    cases b with
    | map j bs =>
      cases c with
      | map k cs =>
        have hna := (keyed_map_iff.1 ha).1
        have hnb := (keyed_map_iff.1 hb).1
        have hnc := (keyed_map_iff.1 hc).1
        rw [eqv_map_iff hna hnb] at hab
        rw [eqv_map_iff hnb hnc] at hbc
        rw [eqv_map_iff hna hnc]
        intro key
        cases hx : as.lookup key with
        | some x =>
          obtain ⟨y, hy, hxy⟩ := (eqvAt_of_eq_some hx).1 (hab key)
          obtain ⟨z, hz, hyz⟩ := (eqvAt_of_eq_some hy).1 (hbc key)
          refine (eqvAt_of_eq_some hx).2 ⟨z, hz, ?_⟩
          exact ih key x (Entries.mem_of_lookup hx) (ha.of_lookup hx) (hb.of_lookup hy)
            (hc.of_lookup hz) hxy hyz
        | none =>
          have hy := (eqvAt_of_eq_none hx).1 (hab key)
          exact (eqvAt_of_eq_none hx).2 ((eqvAt_of_eq_none hy).1 (hbc key))
      | _ => simp [eqv] at hbc
    | _ => simp [eqv] at hab

/-- **A value is equal to itself** exactly if it reaches no `nan`. -/
theorem eqv_self_iff {a : Value} (ha : a.Keyed) :
    a.eqv a = true ↔ ¬ a.Reaches (.float .nan) := by
  induction a using inductionOnParts with
  | leaf a hleaf =>
    rw [hleaf.reaches_iff]
    cases a with
    | list | map => exact hleaf.elim
    | float x =>
      rw [eqv, Binary64.eqv_self_iff, Value.float.injEq]
      exact not_congr eq_comm
    | _ => simp [eqv]
  | list i as ih =>
    rw [eqv_list, eqvItems_self_iff, reaches_list_iff]
    simp only [reduceCtorEq, false_or, not_exists, not_and]
    exact forall₂_congr fun x hx => ih x hx (keyed_list_iff.1 ha x hx)
  | map i as ih =>
    obtain ⟨hna, hparts⟩ := keyed_map_iff.1 ha
    rw [eqv_map_iff hna hna, forall_eqvAt_iff, reaches_map_iff]
    simp only [reduceCtorEq, false_or, not_exists, not_and, implies_true, true_and]
    constructor
    · intro h key x hx
      have hkey := Entries.lookup_of_mem hna hx
      exact (ih key x hx (hparts _ hx)).1 (h key x x hkey hkey)
    · intro h key x y hx hy
      obtain rfl : x = y := Option.some.inj (hx.symm.trans hy)
      have hmem := Entries.mem_of_lookup hx
      exact (ih key x hmem (hparts _ hmem)).2 (h key x hmem)

/-! ### Identity -/

/-- Whether the two values, if they have one identity, have one content. -/
def Agrees : Value → Value → Prop
  | .list i as, .list j bs => i = j → as = bs
  | .map i as, .map j bs => i = j → as = bs
  | _, _ => True

section

variable {a b c : Value}

theorem IsLeaf.same_eq (h : a.IsLeaf) (b : Value) : a.same b = a.eqv b := by
  cases a with
  | list | map => exact h.elim
  | _ => cases b <;> rfl

theorem IsLeaf.of_eqv (h : a.IsLeaf) (heq : a.eqv b = true) : b.IsLeaf := by
  cases b with
  | list | map => cases a <;> first | exact h.elim | simp [eqv] at heq
  | _ => trivial

theorem same_list_iff {i : Identity} {as : List Value} :
    (Value.list i as).same b = true ↔ ∃ bs, b = .list i bs := by
  cases b with
  | list j bs =>
    rw [same_list, beq_iff_eq]
    constructor
    · rintro rfl
      exact ⟨bs, rfl⟩
    · rintro ⟨_, h⟩
      exact (Value.list.inj h).1.symm
  | _ => simp [same, eqv]

theorem same_map_iff {i : Identity} {as : Entries Value} :
    (Value.map i as).same b = true ↔ ∃ bs, b = .map i bs := by
  cases b with
  | map j bs =>
    rw [same_map, beq_iff_eq]
    constructor
    · rintro rfl
      exact ⟨bs, rfl⟩
    · rintro ⟨_, h⟩
      exact (Value.map.inj h).1.symm
  | _ => simp [same, eqv]

theorem same_symm (ha : a.Keyed) (hb : b.Keyed) (h : a.same b = true) : b.same a = true := by
  cases a using inductionOnParts with
  | leaf a hleaf =>
    rw [hleaf.same_eq] at h
    rw [(hleaf.of_eqv h).same_eq]
    exact eqv_symm ha hb h
  | list i as =>
    obtain ⟨bs, rfl⟩ := same_list_iff.1 h
    exact same_list_iff.2 ⟨as, rfl⟩
  | map i as =>
    obtain ⟨bs, rfl⟩ := same_map_iff.1 h
    exact same_map_iff.2 ⟨as, rfl⟩

theorem same_trans (ha : a.Keyed) (hb : b.Keyed) (hc : c.Keyed) (hab : a.same b = true)
    (hbc : b.same c = true) : a.same c = true := by
  cases a using inductionOnParts with
  | leaf a hleaf =>
    rw [hleaf.same_eq] at hab ⊢
    rw [(hleaf.of_eqv hab).same_eq] at hbc
    exact eqv_trans ha hb hc hab hbc
  | list i as =>
    obtain ⟨bs, rfl⟩ := same_list_iff.1 hab
    obtain ⟨cs, rfl⟩ := same_list_iff.1 hbc
    exact same_list_iff.2 ⟨cs, rfl⟩
  | map i as =>
    obtain ⟨bs, rfl⟩ := same_map_iff.1 hab
    obtain ⟨cs, rfl⟩ := same_map_iff.1 hbc
    exact same_map_iff.2 ⟨cs, rfl⟩

/-- What is the same is equal, as far as it is equal to itself. -/
theorem eqv_of_same (hagree : a.Agrees b) (h : a.same b = true) (hself : a.eqv a = true) :
    a.eqv b = true := by
  cases a using inductionOnParts with
  | leaf a hleaf => rwa [hleaf.same_eq] at h
  | list i as =>
    obtain ⟨bs, rfl⟩ := same_list_iff.1 h
    obtain rfl : as = bs := hagree rfl
    exact hself
  | map i as =>
    obtain ⟨bs, rfl⟩ := same_map_iff.1 h
    obtain rfl : as = bs := hagree rfl
    exact hself

end

/-- **Equality is symmetric and transitive**, and a value is equal to itself exactly if it
reaches no `nan`; maps are equal exactly if they have the same keys, in whichever order, and
these stand for equal values. Identity is symmetric and transitive too, and finer: what is
the same is equal as soon as it is equal to itself. -/
theorem eqv_isPartialEquivalence {a b c : Value} (ha : a.Keyed) (hb : b.Keyed) (hc : c.Keyed) :
    (a.eqv b = true → b.eqv a = true) ∧
    (a.eqv b = true → b.eqv c = true → a.eqv c = true) ∧
    (a.eqv a = true ↔ ¬ a.Reaches (.float .nan)) ∧
    (a.same b = true → b.same a = true) ∧
    (a.same b = true → b.same c = true → a.same c = true) ∧
    (a.Agrees b → a.same b = true → a.eqv a = true → a.eqv b = true) ∧
    ∀ i j as bs, a = .map i as → b = .map j bs →
      (a.eqv b = true ↔ (∀ key, key ∈ as.map Prod.fst ↔ key ∈ bs.map Prod.fst) ∧
        ∀ key x y, as.lookup key = some x → bs.lookup key = some y → x.eqv y = true) := by
  refine ⟨eqv_symm ha hb, eqv_trans ha hb hc, eqv_self_iff ha, same_symm ha hb,
    same_trans ha hb hc, eqv_of_same, ?_⟩
  rintro i j as bs rfl rfl
  rw [eqv_map_iff (keyed_map_iff.1 ha).1 (keyed_map_iff.1 hb).1, forall_eqvAt_iff]

/-- A map with a list in it that ends with this number. -/
def listed (i j : Identity) (x : Binary64) : Value :=
  .map i [("n", .int 1), ("xs", .list j [.text "a", .float x])]

/-- Its entries the other way round. -/
def turned (i j : Identity) (x : Binary64) : Value :=
  .map i [("xs", .list j [.text "a", .float x]), ("n", .int 1)]

theorem keyed_listed (i j : Identity) (x : Binary64) : (listed i j x).Keyed := by
  have hleaf : (int 1).Keyed ∧ (text "a").Keyed ∧ (float x).Keyed :=
    ⟨IsLeaf.keyed trivial, IsLeaf.keyed trivial, IsLeaf.keyed trivial⟩
  simpa [listed, keyed_map_iff, keyed_list_iff] using hleaf

theorem keyed_turned (i j : Identity) (x : Binary64) : (turned i j x).Keyed := by
  have hleaf : ((text "a").Keyed ∧ (float x).Keyed) ∧ (int 1).Keyed :=
    ⟨⟨IsLeaf.keyed trivial, IsLeaf.keyed trivial⟩, IsLeaf.keyed trivial⟩
  simpa [turned, keyed_map_iff, keyed_list_iff] using hleaf

/-- The order of the entries does not count, nor does the sign of zero; a `nan` does. -/
theorem eqv_isPartialEquivalence_turned :
    (turned 2 3 (.zero false)).eqv (listed 0 1 (.zero true)) = true ∧
    (listed 0 1 (.zero true)).eqv (listed 4 5 (.zero false)) = true ∧
    (listed 0 1 .nan).same (listed 0 1 .nan) = true ∧
    (listed 0 1 .nan).eqv (listed 0 1 .nan) = false := by
  have hfirst : (listed 0 1 (.zero true)).eqv (turned 2 3 (.zero false)) = true := by
    decide +kernel
  have hsecond : (turned 2 3 (.zero false)).eqv (listed 4 5 (.zero false)) = true := by
    decide +kernel
  obtain ⟨hsymm, htrans, -⟩ := eqv_isPartialEquivalence (keyed_listed 0 1 (.zero true))
    (keyed_turned 2 3 (.zero false)) (keyed_listed 4 5 (.zero false))
  have hnan := keyed_listed 0 1 .nan
  obtain ⟨-, -, hself, -⟩ := eqv_isPartialEquivalence hnan hnan hnan
  have hlist : (Value.list 1 [.text "a", .float .nan]).Reaches (.float .nan) :=
    .item (List.mem_cons_of_mem _ List.mem_cons_self) (.refl _)
  have hreaches : (listed 0 1 .nan).Reaches (.float .nan) :=
    .entry (List.mem_cons_of_mem _ List.mem_cons_self) hlist
  refine ⟨hsymm hfirst, htrans hfirst hsecond, rfl, ?_⟩
  rw [← Bool.not_eq_true]
  exact fun h => hself.1 h hreaches

end Value
end TagScope
