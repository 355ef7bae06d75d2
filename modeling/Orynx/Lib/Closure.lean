import Mathlib.Data.List.Dedup
import Mathlib.Data.List.Nodup
import Mathlib.Data.List.Perm.Subperm
import Mathlib.Logic.Relation

/-! # Closures by rounds

`WITH RECURSIVE … UNION`: start from some nodes and add, round after round, what they lead to.

* `mem_closure_iff`: with a round for each node there is, that is everything that can be reached.
-/

namespace Lib.Closure

universe u

variable {α : Type u} [DecidableEq α] (succ : α → List α)

/-- One round. -/
def round (seen : List α) : List α := (seen ++ seen.flatMap succ).dedup

/-- Some rounds from a seed. -/
def closure : Nat → List α → List α
  | 0, seed => seed.dedup
  | n + 1, seed => round succ (closure n seed)

/-- These nodes lead nowhere else. -/
def Closed (seen : List α) : Prop := ∀ x ∈ seen, ∀ y ∈ succ x, y ∈ seen

variable {succ} {seed nodes : List α} {n : Nat} {x y : α}

theorem mem_round {seen : List α} : y ∈ round succ seen ↔ y ∈ seen ∨ ∃ x ∈ seen, y ∈ succ x := by
  simp [round]

theorem closure_nodup : (closure succ n seed).Nodup := by
  cases n with
  | zero => exact List.nodup_dedup _
  | succ n => exact List.nodup_dedup _

/-- A round that adds nothing is the last. -/
theorem round_of_closed {seen : List α} (h : Closed succ seen) : Closed succ (round succ seen) := by
  have hsame : ∀ y, y ∈ round succ seen ↔ y ∈ seen := by
    intro y
    rw [mem_round]
    constructor
    · rintro (hy | ⟨x, hx, hy⟩)
      · exact hy
      · exact h x hx y hy
    · exact .inl
  intro x hx y hy
  rw [hsame] at hx ⊢
  exact h x hx y hy

/-- A round that is not the last adds a node. -/
theorem length_lt_round {seen : List α} (hnodup : seen.Nodup) (h : ¬ Closed succ seen) :
    seen.length < (round succ seen).length := by
  have hnew : ∃ x ∈ seen, ∃ y ∈ succ x, y ∉ seen := by
    by_contra hno
    push Not at hno
    exact h hno
  rcases hnew with ⟨x, hx, y, hy, hyseen⟩
  have hgrown : (y :: seen).Nodup := List.nodup_cons.2 ⟨hyseen, hnodup⟩
  refine Nat.lt_of_succ_le (hgrown.length_le_of_subset fun z hz => mem_round.2 ?_)
  rcases List.mem_cons.1 hz with rfl | hz
  · exact .inr ⟨x, hx, hy⟩
  · exact .inl hz

variable (succ seed) in
theorem closed_or_length (n : Nat) :
    Closed succ (closure succ n seed) ∨ n ≤ (closure succ n seed).length := by
  induction n with
  | zero => exact .inr (Nat.zero_le _)
  | succ n ih =>
    by_cases hclosed : Closed succ (closure succ n seed)
    · exact .inl (round_of_closed hclosed)
    · have hlong := ih.resolve_left hclosed
      exact .inr (Nat.lt_of_le_of_lt hlong (length_lt_round closure_nodup hclosed))

theorem closure_sound (h : y ∈ closure succ n seed) :
    ∃ x ∈ seed, Relation.ReflTransGen (fun a b => b ∈ succ a) x y := by
  induction n generalizing y with
  | zero => exact ⟨y, List.mem_dedup.1 h, .refl⟩
  | succ n ih =>
    rcases mem_round.1 h with h | ⟨x, hx, hxy⟩
    · exact ih h
    · rcases ih hx with ⟨z, hz, hzx⟩
      exact ⟨z, hz, hzx.tail hxy⟩

theorem seed_subset_closure (n : Nat) : ∀ x ∈ seed, x ∈ closure succ n seed := by
  induction n with
  | zero => exact fun x hx => List.mem_dedup.2 hx
  | succ n ih => exact fun x hx => mem_round.2 (.inl (ih x hx))

theorem mem_closure_iff (hseed : ∀ x ∈ seed, x ∈ nodes) (hsucc : ∀ x, ∀ y ∈ succ x, y ∈ nodes) :
    y ∈ closure succ nodes.length seed ↔
      ∃ x ∈ seed, Relation.ReflTransGen (fun a b => b ∈ succ a) x y := by
  refine ⟨closure_sound, ?_⟩
  -- the rounds stop, or have met all nodes
  have hclosed : Closed succ (closure succ nodes.length seed) := by
    rcases closed_or_length succ seed nodes.length with hclosed | hlong
    · exact hclosed
    · have hsub : closure succ nodes.length seed ⊆ nodes := by
        intro z hz
        rcases closure_sound hz with ⟨x, hx, hxz⟩
        rcases Relation.ReflTransGen.cases_tail hxz with rfl | ⟨w, -, hwz⟩
        · exact hseed _ hx
        · exact hsucc w z hwz
      have hperm := (List.subperm_of_subset closure_nodup hsub).perm_of_length_le hlong
      exact fun x _ z hz => hperm.mem_iff.2 (hsucc x z hz)
  rintro ⟨x, hx, hxy⟩
  induction hxy with
  | refl => exact seed_subset_closure _ x hx
  | tail _ hyz ih => exact hclosed _ ih _ hyz

end Lib.Closure
