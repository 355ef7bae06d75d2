import Mathlib.Logic.Relation
import Mathlib.Logic.Function.Basic
import Mathlib.Data.List.Basic

/-! # Forests given by parent pointers

A partial function `parent` is a forest if no node is above itself.

* `forest_update_iff`: giving a node a new parent keeps a forest exactly if the parent is not
  the node or below it;
* `meets_iff`: a walk up with as many steps as there are nodes with a parent decides that.
-/

namespace Lib.Forest

universe u

variable {α : Type u}

/-- The node and its parent. -/
def Child (parent : α → Option α) (x y : α) : Prop := parent x = some y

/-- No node is its own proper ancestor. -/
def IsForest (parent : α → Option α) : Prop := ∀ x, ¬ Relation.TransGen (Child parent) x x

variable {parent : α → Option α}

/-- Cutting edges keeps a forest. -/
theorem IsForest.mono {parent' : α → Option α} (hf : IsForest parent)
    (h : ∀ x y, parent' x = some y → parent x = some y) : IsForest parent' :=
  fun x hx => hf x (Relation.TransGen.mono (fun a b hab => h a b hab) _ _ hx)

/-! ## A new parent -/

section Update

variable [DecidableEq α] {a p : α}

/-- A chain after the change is one from before, or goes through the new edge. -/
theorem transGen_update {x y : α}
    (h : Relation.TransGen (Child (Function.update parent a (some p))) x y) :
    Relation.TransGen (Child parent) x y ∨
      (Relation.ReflTransGen (Child parent) x a ∧ Relation.ReflTransGen (Child parent) p y) := by
  have hedge : ∀ {u v : α}, Child (Function.update parent a (some p)) u v →
      (u = a ∧ v = p) ∨ Child parent u v := by
    intro u v huv
    by_cases hu : u = a
    · subst hu
      have hv : some p = some v := by simpa [Child] using huv
      exact .inl ⟨rfl, (Option.some.inj hv).symm⟩
    · rw [Child, Function.update_of_ne hu] at huv
      exact .inr huv
  induction h with
  | single hxy =>
    rcases hedge hxy with ⟨rfl, rfl⟩ | hxy
    · exact .inr ⟨.refl, .refl⟩
    · exact .inl (.single hxy)
  | tail _ hyz ih =>
    rcases hedge hyz with ⟨rfl, rfl⟩ | hyz
    · rcases ih with ih | ⟨hxa, -⟩
      · exact .inr ⟨ih.to_reflTransGen, .refl⟩
      · exact .inr ⟨hxa, .refl⟩
    · rcases ih with ih | ⟨hxa, hpy⟩
      · exact .inl (ih.tail hyz)
      · exact .inr ⟨hxa, hpy.tail hyz⟩

theorem forest_update_iff (hf : IsForest parent) :
    IsForest (Function.update parent a (some p)) ↔
      ¬ Relation.ReflTransGen (Child parent) p a := by
  constructor
  · intro hf' hpa
    -- the old chain up to the node does not use its new edge
    have hold : ∀ x, Relation.ReflTransGen (Child parent) x a →
        Relation.ReflTransGen (Child (Function.update parent a (some p))) x a := by
      intro x hxa
      induction hxa using Relation.ReflTransGen.head_induction_on with
      | refl => exact .refl
      | @head x y hxy _ ih =>
        by_cases hx : x = a
        · rw [hx]
        · refine ih.head ?_
          rw [Child, Function.update_of_ne hx]
          exact hxy
    have hedge : Child (Function.update parent a (some p)) a p := by simp [Child]
    exact hf' a (Relation.TransGen.head' hedge (hold p hpa))
  · intro hpa x hx
    rcases transGen_update hx with hx | ⟨hxa, hpx⟩
    · exact hf x hx
    · exact hpa (hpx.trans hxa)

theorem forest_update_none (hf : IsForest parent) :
    IsForest (Function.update parent a none) := by
  refine hf.mono fun x y hxy => ?_
  by_cases hx : x = a
  · simp [hx] at hxy
  · rwa [Function.update_of_ne hx] at hxy

/-- A node that is nobody's parent may be given any other parent. -/
theorem forest_update_leaf (hf : IsForest parent) (hleaf : ∀ x, parent x ≠ some a)
    (hp : p ≠ a) : IsForest (Function.update parent a (some p)) := by
  refine (forest_update_iff hf).2 fun hpa => ?_
  rcases Relation.ReflTransGen.cases_tail hpa with h | ⟨x, -, hx⟩
  · exact hp h.symm
  · exact hleaf x hx

end Update

/-! ## Walking up -/

section Walk

variable [DecidableEq α]

/-- Walk up for a number of steps and look for the target among the ancestors. -/
def meets (parent : α → Option α) (target : α) : Nat → α → Bool
  | 0, _ => false
  | n + 1, cursor =>
    match parent cursor with
    | none => false
    | some up => up == target || meets parent target n up

theorem meets_sound {target : α} {n : Nat} {cursor : α}
    (h : meets parent target n cursor = true) :
    Relation.TransGen (Child parent) cursor target := by
  induction n generalizing cursor with
  | zero => simp [meets] at h
  | succ n ih =>
    cases hup : parent cursor with
    | none => simp [meets, hup] at h
    | some up =>
      simp only [meets, hup, Bool.or_eq_true, beq_iff_eq] at h
      rcases h with rfl | h
      · exact .single hup
      · exact .head hup (ih h)

/-- With a step for each node that has a parent, the walk misses nothing. -/
theorem meets_complete (hf : IsForest parent) {target : α} {n : Nat} {cursor : α}
    {nodes : List α} (hlen : nodes.length ≤ n)
    (hnodes : ∀ x y, Relation.ReflTransGen (Child parent) cursor x → parent x = some y → x ∈ nodes)
    (h : Relation.TransGen (Child parent) cursor target) :
    meets parent target n cursor = true := by
  induction n generalizing cursor nodes with
  | zero =>
    rcases Relation.TransGen.head'_iff.1 h with ⟨up, hup, -⟩
    have hpos : 0 < nodes.length := List.length_pos_of_mem (hnodes cursor up .refl hup)
    omega
  | succ n ih =>
    rcases Relation.TransGen.head'_iff.1 h with ⟨up, hup, hrest⟩
    have hcursor : cursor ∈ nodes := hnodes cursor up .refl hup
    have hparent : parent cursor = some up := hup
    rw [meets, hparent]
    show (up == target || meets parent target n up) = true
    rcases Relation.reflTransGen_iff_eq_or_transGen.1 hrest with heq | hrest
    · simp [heq]
    · have hlen' : (nodes.erase cursor).length ≤ n := by
        rw [List.length_erase_of_mem hcursor]
        omega
      have hmeets : meets parent target n up = true := by
        refine ih hlen' (fun x y hx hy => ?_) hrest
        -- the walk does not come back to where it was
        have hne : x ≠ cursor := by
          rintro rfl
          exact hf x (Relation.TransGen.head' hup hx)
        exact (List.mem_erase_of_ne hne).2 (hnodes x y (hx.head hup) hy)
      rw [hmeets, Bool.or_true]

theorem meets_iff (hf : IsForest parent) {nodes : List α}
    (hnodes : ∀ x y, parent x = some y → x ∈ nodes) {target cursor : α} :
    meets parent target nodes.length cursor = true ↔
      Relation.TransGen (Child parent) cursor target :=
  ⟨meets_sound, meets_complete hf (Nat.le_refl _) fun x y _ hxy => hnodes x y hxy⟩

end Walk

end Lib.Forest
