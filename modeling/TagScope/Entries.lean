/-
# Ordered entries

Names with what they stand for, in the order in which the names came first. A
name that is put again keeps its place and takes the new meaning.

Key definitions: `Entries`, `Entries.put`, `Entries.ofList`.
Key theorems: `Entries.lookup_put`, `Entries.nodup_ofList`.
-/
namespace TagScope

/-- Names and what they stand for, in order. -/
abbrev Entries (α : Type) := List (String × α)

namespace Entries

variable {α : Type}

/-- The entries with `name` standing for `a`. -/
def put (name : String) (a : α) : Entries α → Entries α
  | [] => [(name, a)]
  | (n, b) :: rest => if n = name then (n, a) :: rest else (n, b) :: put name a rest

/-- The entries put one after the other. -/
def ofList (entries : List (String × α)) : Entries α :=
  entries.foldl (fun es e => es.put e.1 e.2) []

/-- Whether a name stands for something. -/
def has (name : String) (es : Entries α) : Bool := (es.lookup name).isSome

theorem lookup_put (name other : String) (a : α) : ∀ es : Entries α,
    (es.put name a).lookup other = if other = name then some a else es.lookup other
  | [] => by
    by_cases h : other = name
    · simp [put, h]
    · simp [put, List.lookup_cons, beq_false_of_ne h, h]
  | (n, b) :: rest => by
    unfold put
    by_cases hn : n = name
    · subst hn
      by_cases h : other = n
      · simp [h]
      · simp [List.lookup_cons, beq_false_of_ne h, h]
    · rw [if_neg hn]
      by_cases h : other = n
      · subst h; simp [hn]
      · simp [List.lookup_cons, beq_false_of_ne h, lookup_put name other a rest]

theorem keys_put (name : String) (a : α) : ∀ es : Entries α,
    (es.put name a).map Prod.fst =
      if name ∈ es.map Prod.fst then es.map Prod.fst else es.map Prod.fst ++ [name]
  | [] => by simp [put]
  | (n, b) :: rest => by
    unfold put
    by_cases hn : n = name
    · simp [hn]
    · rw [if_neg hn, List.map_cons, keys_put name a rest]
      have : ¬ name = n := fun h => hn h.symm
      by_cases hm : name ∈ rest.map Prod.fst <;> simp [hm, this]

theorem nodup_put {name : String} {a : α} {es : Entries α} (h : (es.map Prod.fst).Nodup) :
    ((es.put name a).map Prod.fst).Nodup := by
  rw [keys_put]
  split
  · exact h
  · rename_i hn
    refine List.nodup_append.2 ⟨h, by simp, ?_⟩
    intro x hx y hy
    simp only [List.mem_singleton] at hy
    exact fun e => hn (hy ▸ e ▸ hx)

/-- **No name is there twice**, whatever is put in whichever order. -/
theorem nodup_ofList (entries : List (String × α)) : ((ofList entries).map Prod.fst).Nodup := by
  suffices h : ∀ es : Entries α, (es.map Prod.fst).Nodup →
      ((entries.foldl (fun es e => es.put e.1 e.2) es).map Prod.fst).Nodup from h [] List.nodup_nil
  induction entries with
  | nil => exact fun _ hes => hes
  | cons entry entries ih => exact fun es hes => ih _ (nodup_put hes)

end Entries

end TagScope
