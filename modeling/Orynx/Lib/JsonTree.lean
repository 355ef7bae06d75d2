import Mathlib.Data.List.Basic

/-! # JSON values

Trees of arrays and objects over null, booleans, numbers and strings.

* `mapStrings_eq_self`: a map over the strings changes nothing just when it changes no string.
-/

universe u

namespace Lib

inductive Json (N : Type u) where
  | null
  | bool (b : Bool)
  | number (n : N)
  | string (s : String)
  | array (items : List (Json N))
  | object (fields : List (String × Json N))

namespace Json

variable {N : Type u}

/-! ## Maps over the strings -/

mutual

/-- Every string leaf through `f`, the rest as it is. -/
def mapStrings (f : String → String) : Json N → Json N
  | .null => .null
  | .bool b => .bool b
  | .number n => .number n
  | .string s => .string (f s)
  | .array items => .array (mapItems f items)
  | .object fields => .object (mapFields f fields)

def mapItems (f : String → String) : List (Json N) → List (Json N)
  | [] => []
  | v :: rest => mapStrings f v :: mapItems f rest

def mapFields (f : String → String) : List (String × Json N) → List (String × Json N)
  | [] => []
  | (k, v) :: rest => (k, mapStrings f v) :: mapFields f rest

end

mutual

/-- The string leaves. -/
def strings : Json N → List String
  | .null => []
  | .bool _ => []
  | .number _ => []
  | .string s => [s]
  | .array items => itemStrings items
  | .object fields => fieldStrings fields

def itemStrings : List (Json N) → List String
  | [] => []
  | v :: rest => strings v ++ itemStrings rest

def fieldStrings : List (String × Json N) → List String
  | [] => []
  | (_, v) :: rest => strings v ++ fieldStrings rest

end

theorem mapFields_eq (f : String → String) (fields : List (String × Json N)) :
    mapFields f fields = fields.map fun e => (e.1, mapStrings f e.2) := by
  induction fields with
  | nil => rfl
  | cons e rest ih => rw [mapFields, ih, List.map_cons]

mutual

theorem mapStrings_eq_self {f : String → String} :
    ∀ v : Json N, v.mapStrings f = v ↔ ∀ s ∈ v.strings, f s = s
  | .null => by simp [mapStrings, strings]
  | .bool b => by simp [mapStrings, strings]
  | .number n => by simp [mapStrings, strings]
  | .string s => by simp [mapStrings, strings]
  | .array items => by
    rw [mapStrings, strings, array.injEq]
    exact mapItems_eq_self items
  | .object fields => by
    rw [mapStrings, strings, object.injEq]
    exact mapFields_eq_self fields

theorem mapItems_eq_self {f : String → String} :
    ∀ items : List (Json N), mapItems f items = items ↔ ∀ s ∈ itemStrings items, f s = s
  | [] => by simp [mapItems, itemStrings]
  | v :: rest => by
    rw [mapItems, itemStrings, List.cons.injEq, mapStrings_eq_self v, mapItems_eq_self rest,
      List.forall_mem_append]

theorem mapFields_eq_self {f : String → String} :
    ∀ fields : List (String × Json N),
      mapFields f fields = fields ↔ ∀ s ∈ fieldStrings fields, f s = s
  | [] => by simp [mapFields, fieldStrings]
  | (k, v) :: rest => by
    rw [mapFields, fieldStrings, List.cons.injEq, Prod.mk.injEq, mapStrings_eq_self v,
      mapFields_eq_self rest, List.forall_mem_append]
    simp

end

end Json

end Lib
