/-
# What a value holds

Lists and maps hold values, to any depth. Whatever else there is, a record included, is a
leaf: it is looked at as one thing. A value reaches itself and what it holds, and what those
hold. What is true of all leaves, and of every list and map if it is true of what it holds,
is true of all values (`Value.inductionOnParts`).

Key definitions: `Value.IsLeaf`, `Value.Reaches`.
Key theorems: `Value.inductionOnParts`.
-/
import TagScope.Value.Basic

namespace TagScope
namespace Value

/-- Whether a value holds no others. -/
def IsLeaf : Value → Prop
  | .list _ _ | .map _ _ => False
  | _ => True

/-- **From the parts to the whole**: what is true of a list and of a map as soon as it is
true of what they hold is true of every value, if it is true of the leaves. -/
@[elab_as_elim]
theorem inductionOnParts {P : Value → Prop} (leaf : ∀ v, v.IsLeaf → P v)
    (list : ∀ identity items, (∀ v ∈ items, P v) → P (.list identity items))
    (map : ∀ identity entries, (∀ key v, (key, v) ∈ entries → P v) → P (.map identity entries)) :
    ∀ v : Value, P v
  | .list identity items => list identity items fun v _ => inductionOnParts leaf list map v
  | .map identity entries => map identity entries fun _ v _ => inductionOnParts leaf list map v
  | .null => leaf .null trivial
  | .bool b => leaf (.bool b) trivial
  | .int i => leaf (.int i) trivial
  | .float x => leaf (.float x) trivial
  | .text s => leaf (.text s) trivial
  | .record r => leaf (.record r) trivial
termination_by v => sizeOf v
decreasing_by
  · rename_i hv
    have hlt := List.sizeOf_lt_of_mem hv
    simp only [Value.list.sizeOf_spec]
    omega
  · rename_i hv
    have hlt := List.sizeOf_lt_of_mem hv
    simp only [Value.map.sizeOf_spec, Prod.mk.sizeOf_spec] at hlt ⊢
    omega

/-- A value reaches itself, and what is reached by what it holds. -/
inductive Reaches : Value → Value → Prop where
  | refl (v : Value) : Reaches v v
  | item {identity : Identity} {items : List Value} {v w : Value} :
    v ∈ items → Reaches v w → Reaches (.list identity items) w
  | entry {identity : Identity} {entries : List (String × Value)} {key : String} {v w : Value} :
    (key, v) ∈ entries → Reaches v w → Reaches (.map identity entries) w

variable {v w : Value} {identity : Identity} {items : List Value}
  {entries : List (String × Value)}

theorem IsLeaf.reaches_iff (h : v.IsLeaf) : v.Reaches w ↔ w = v := by
  refine ⟨fun hr => ?_, fun e => e ▸ .refl v⟩
  cases hr with
  | refl => rfl
  | item => exact h.elim
  | entry => exact h.elim

theorem reaches_list_iff :
    (Value.list identity items).Reaches w ↔
      w = .list identity items ∨ ∃ v ∈ items, v.Reaches w := by
  constructor
  · intro hr
    cases hr with
    | refl => exact Or.inl rfl
    | item hv hr => exact Or.inr ⟨_, hv, hr⟩
  · rintro (rfl | ⟨v, hv, hr⟩)
    · exact .refl _
    · exact .item hv hr

theorem reaches_map_iff :
    (Value.map identity entries).Reaches w ↔
      w = .map identity entries ∨ ∃ key v, (key, v) ∈ entries ∧ v.Reaches w := by
  constructor
  · intro hr
    cases hr with
    | refl => exact Or.inl rfl
    | entry hv hr => exact Or.inr ⟨_, _, hv, hr⟩
  · rintro (rfl | ⟨key, v, hv, hr⟩)
    · exact .refl _
    · exact .entry hv hr

end Value
end TagScope
