import Mathlib.Data.List.Basic

/-! # Views kept fresh through a queue of keys

A view holds for each key what an aggregate gives on the rows of that key. It is not recomputed with
the rows but later, for some keys at a time, and a key that has changed is pending until then.

* `Fresh`: a key that is not pending has its aggregate in the view;
* `Fresh.change`: rows may change where every key that changes becomes pending;
* `Fresh.recompute`: a recomputation may clear the keys it looks at, and no others;
* `enqueue`: a queue that keeps one entry a key, with the latest time it was put there.
-/

namespace Lib.View

universe u v

variable {κ : Type u} {α : Type v}

/-! ## Freshness -/

/-- A key that is not pending has its aggregate in the view. -/
def Fresh (view agg : κ → α) (pending : κ → Prop) : Prop := ∀ k, pending k ∨ view k = agg k

variable {view agg agg' : κ → α} {pending pending' : κ → Prop}

theorem Fresh.exact (h : Fresh view agg pending) (hnone : ∀ k, ¬ pending k) (k : κ) :
    view k = agg k :=
  (h k).resolve_left (hnone k)

theorem Fresh.mono (h : Fresh view agg pending) (hkeeps : ∀ k, pending k → pending' k) :
    Fresh view agg pending' :=
  fun k => (h k).imp_left (hkeeps k)

/-- The rows change: a key becomes pending, or it has the aggregate it had and stays pending. -/
theorem Fresh.change (h : Fresh view agg pending)
    (hchange : ∀ k, pending' k ∨ agg' k = agg k ∧ (pending k → pending' k)) :
    Fresh view agg' pending' := by
  intro k
  rcases hchange k with hk | ⟨hagg, hkeeps⟩
  · exact .inl hk
  · rcases h k with hk | hview
    · exact .inl (hkeeps hk)
    · exact .inr (hview.trans hagg.symm)

/-- Some keys are recomputed, the others keep what they have and stay pending. -/
theorem Fresh.recompute {view' : κ → α} (h : Fresh view agg pending) (keys : κ → Prop)
    (hkeys : ∀ k, keys k → view' k = agg k) (hothers : ∀ k, ¬ keys k → view' k = view k)
    (hkeeps : ∀ k, pending k → keys k ∨ pending' k) : Fresh view' agg pending' := by
  intro k
  by_cases hk : keys k
  · exact .inr (hkeys k hk)
  · rcases h k with hp | hview
    · exact .inl ((hkeeps k hp).resolve_left hk)
    · exact .inr ((hothers k hk).trans hview)

/-! ## The queue -/

/-- A key with the time it was put in the queue. -/
structure Entry (κ : Type u) where
  key : κ
  enqueuedAt : Int
deriving DecidableEq, Repr

variable [DecidableEq κ] {q : List (Entry κ)} {now : Int} {keys : List κ}

/-- A key that is there takes the later of the two times. -/
def enqueue (now : Int) (q : List (Entry κ)) (k : κ) : List (Entry κ) :=
  if q.any fun e => e.key == k then
    q.map fun e => if e.key = k then { e with enqueuedAt := max e.enqueuedAt now } else e
  else q ++ [⟨k, now⟩]

def enqueueAll (now : Int) (q : List (Entry κ)) (keys : List κ) : List (Entry κ) :=
  keys.foldl (enqueue now) q

theorem mem_enqueue (now : Int) (q : List (Entry κ)) (k : κ) :
    ∃ e ∈ enqueue now q k, e.key = k ∧ now ≤ e.enqueuedAt := by
  rw [enqueue]
  split
  · rename_i hany
    rcases List.any_eq_true.1 hany with ⟨e, he, hk⟩
    have hk : e.key = k := beq_iff_eq.1 hk
    refine ⟨_, List.mem_map_of_mem he, ?_⟩
    rw [if_pos hk]
    exact ⟨hk, Int.le_max_right _ _⟩
  · exact ⟨⟨k, now⟩, List.mem_append_right _ (List.mem_singleton_self _), rfl, Int.le_refl _⟩

theorem enqueue_keeps (now : Int) (k : κ) {e : Entry κ} (he : e ∈ q) :
    ∃ e' ∈ enqueue now q k, e'.key = e.key ∧ e.enqueuedAt ≤ e'.enqueuedAt := by
  rw [enqueue]
  split
  · refine ⟨_, List.mem_map_of_mem he, ?_⟩
    split
    · exact ⟨rfl, Int.le_max_left _ _⟩
    · exact ⟨rfl, Int.le_refl _⟩
  · exact ⟨e, List.mem_append_left _ he, rfl, Int.le_refl _⟩

theorem forall_enqueue {p : Int → Prop} (hnow : p now) (hq : ∀ e ∈ q, p e.enqueuedAt) (k : κ) :
    ∀ e ∈ enqueue now q k, p e.enqueuedAt := by
  intro e he
  rw [enqueue] at he
  split at he
  · rcases List.mem_map.1 he with ⟨d, hd, rfl⟩
    split
    · -- the later of two times is one of them
      rcases Int.le_total d.enqueuedAt now with hle | hle
      · rwa [Int.max_eq_right hle]
      · rw [Int.max_eq_left hle]
        exact hq d hd
    · exact hq d hd
  · rcases List.mem_append.1 he with he | he
    · exact hq e he
    · rwa [List.mem_singleton.1 he]

theorem enqueueAll_keeps (now : Int) (keys : List κ) {e : Entry κ} (he : e ∈ q) :
    ∃ e' ∈ enqueueAll now q keys, e'.key = e.key ∧ e.enqueuedAt ≤ e'.enqueuedAt := by
  induction keys generalizing q e with
  | nil => exact ⟨e, he, rfl, Int.le_refl _⟩
  | cons k keys ih =>
    rcases enqueue_keeps now k he with ⟨e₁, he₁, hkey₁, hle₁⟩
    rcases ih he₁ with ⟨e₂, he₂, hkey₂, hle₂⟩
    exact ⟨e₂, he₂, hkey₂.trans hkey₁, Int.le_trans hle₁ hle₂⟩

/-- Each of the keys is in the queue afterwards, and not with an earlier time. -/
theorem mem_enqueueAll (now : Int) {k : κ} (hk : k ∈ keys) :
    ∃ e ∈ enqueueAll now q keys, e.key = k ∧ now ≤ e.enqueuedAt := by
  induction keys generalizing q with
  | nil => cases hk
  | cons k' keys ih =>
    rcases List.mem_cons.1 hk with rfl | hk
    · rcases mem_enqueue now q k with ⟨e, he, hkey, hle⟩
      rcases enqueueAll_keeps now keys he with ⟨e', he', hkey', hle'⟩
      exact ⟨e', he', hkey'.trans hkey, Int.le_trans hle hle'⟩
    · exact ih hk

theorem forall_enqueueAll {p : Int → Prop} (hnow : p now) (hq : ∀ e ∈ q, p e.enqueuedAt)
    (keys : List κ) : ∀ e ∈ enqueueAll now q keys, p e.enqueuedAt := by
  induction keys generalizing q with
  | nil => exact hq
  | cons k keys ih => exact ih (forall_enqueue hnow hq k)

end Lib.View
