import Mathlib.Logic.Function.Basic
import Mathlib.Data.List.Basic

/-! # Writes that are carried out later

Cells are to be written, and the writes wait in the order in which they were decided, to be
carried out in any order.

* `settled`: what a cell will hold when all writes are carried out in their order;
* `settled_append`: a new write decides its cell;
* `settled_eraseIdx`: a write that overtakes none with another value leaves all that as it is.
-/

namespace Lib.Deferred

universe u v w

variable {ω : Type u} {κ : Type v} {β : Type w} [DecidableEq κ] (key : ω → κ) (value : ω → β)

/-- The value of the last write that waits for the cell, or what it holds. -/
def settled (cell : κ → β) (pending : List ω) (k : κ) : β :=
  ((pending.filter fun x => key x == k).getLast?.map value).getD (cell k)

variable {key value} {cell : κ → β} {pending : List ω} {k : κ} {x : ω}

/-- Writes of one value decide their cells. -/
theorem settled_append {new : List ω} {b : β} (hb : ∀ x ∈ new, value x = b) :
    ((∃ x ∈ new, key x = k) → settled key value cell (pending ++ new) k = b) ∧
      ((∀ x ∈ new, key x ≠ k) →
        settled key value cell (pending ++ new) k = settled key value cell pending k) := by
  simp only [settled, List.filter_append]
  constructor
  · rintro ⟨x, hx, hk⟩
    have hmem : x ∈ new.filter fun x => key x == k := List.mem_filter.2 ⟨hx, by simp [hk]⟩
    have hne : (new.filter fun x => key x == k) ≠ [] := List.ne_nil_of_mem hmem
    rw [List.getLast?_append_of_ne_nil _ hne, List.getLast?_eq_getLast_of_ne_nil hne,
      Option.map_some, Option.getD_some]
    exact hb _ (List.mem_filter.1 (List.getLast_mem hne)).1
  · intro hnone
    have hempty : (new.filter fun x => key x == k) = [] := by
      rw [List.filter_eq_nil_iff]
      intro x hx
      simpa using hnone x hx
    rw [hempty, List.append_nil]

/-- A write that is carried out before no earlier one with another value. -/
theorem settled_eraseIdx {i : Nat} (hi : pending[i]? = some x)
    (horder : ∀ y ∈ pending.take i, key y = key x → value y = value x) :
    settled key value (Function.update cell (key x) (value x)) (pending.eraseIdx i) k =
      settled key value cell pending k := by
  rcases List.getElem?_eq_some_iff.1 hi with ⟨hlt, hx⟩
  have hsplit : pending = pending.take i ++ x :: pending.drop (i + 1) := by
    rw [← hx, List.getElem_cons_drop, List.take_append_drop]
  have herase : pending.eraseIdx i = pending.take i ++ pending.drop (i + 1) :=
    List.eraseIdx_eq_take_drop_succ pending i
  rw [herase]
  conv_rhs => rw [hsplit]
  simp only [settled, List.filter_append, List.filter_cons]
  by_cases hk : key x = k
  · subst hk
    rw [beq_self_eq_true, if_pos rfl, Function.update_self]
    by_cases hlater : (pending.drop (i + 1)).filter (fun y => key y == key x) = []
    · -- the last of the earlier ones, if there is one, has the same value
      rw [hlater, List.append_nil, List.getLast?_append_of_ne_nil _ (by simp)]
      cases hlast : ((pending.take i).filter fun y => key y == key x).getLast? with
      | none => simp
      | some y =>
        rcases List.mem_filter.1 (List.mem_of_getLast? hlast) with ⟨hy, hkey⟩
        have hsame := horder y hy (by simpa using hkey)
        simp [hsame]
    · rw [List.getLast?_append_of_ne_nil _ hlater, List.getLast?_append_of_ne_nil _ (by simp),
        List.getLast?_cons_of_ne_nil hlater]
      cases hlast : ((pending.drop (i + 1)).filter fun y => key y == key x).getLast? with
      | none => exact absurd (List.getLast?_eq_none_iff.1 hlast) hlater
      | some y => rfl
  · rw [if_neg (by simpa using hk), Function.update_of_ne (Ne.symm hk)]

end Lib.Deferred
