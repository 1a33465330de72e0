/-
# Equality and identity of values

Two values are equal when they have the same kind and the same content:
numbers by value, lists item by item, maps key by key in any order, records
only if they are the same one. They are the same when they share their
identity; values that have none are the same when they are equal.

Key definitions: `Value.eqv`, `Value.same`.
-/
import TagScope.Value.Basic

namespace TagScope
namespace Value

mutual

/-- Whether two values are equal. -/
def eqv : Value → Value → Bool
  | .null, .null => true
  | .bool a, .bool b => a == b
  | .int a, .int b => a == b
  | .float a, .float b => a.eqv b
  | .text a, .text b => a == b
  | .list _ as, .list _ bs => eqvItems as bs
  | .map _ as, .map _ bs => as.length == bs.length && eqvWithin as bs
  | .record r, .record s => r.identity == s.identity
  | _, _ => false
termination_by structural a => a

/-- Whether two lists are equal item by item. -/
def eqvItems : List Value → List Value → Bool
  | [], [] => true
  | a :: as, b :: bs => eqv a b && eqvItems as bs
  | _, _ => false
termination_by structural as => as

/-- Whether every entry of the first map has its equal in the second. -/
def eqvWithin : List (String × Value) → List (String × Value) → Bool
  | [], _ => true
  | (key, a) :: rest, bs =>
    (match bs.lookup key with
      | some b => eqv a b
      | none => false) && eqvWithin rest bs
termination_by structural as => as

end

instance : BEq Value := ⟨eqv⟩

/-- Whether two values are the same one. -/
def same : Value → Value → Bool
  | .list i _, .list j _ => i == j
  | .map i _, .map j _ => i == j
  | .record r, .record s => r.identity == s.identity
  | a, b => eqv a b

section

variable {i j : Identity}

theorem eqv_list {as bs : List Value} : (list i as).eqv (list j bs) = eqvItems as bs := by
  rw [eqv]

theorem eqv_map {as bs : Entries Value} :
    (map i as).eqv (map j bs) = (as.length == bs.length && eqvWithin as bs) := by
  rw [eqv]

theorem same_list {as bs : List Value} : (list i as).same (list j bs) = (i == j) := by
  rw [same]

theorem same_map {as bs : Entries Value} : (map i as).same (map j bs) = (i == j) := by
  rw [same]

end

end Value

end TagScope
